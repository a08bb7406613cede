import Mathlib.Tactic.NormNum
import Koalisi.Decision.Cache

/-!
# Decisions do not depend on the cache

Policies that share a cache are asked one after the other: whether an agent should join, and
whether one should leave, of whatever coalition and task.  Every answer acts just when two
fresh magnitudes would have it, and the cache stays in step with its registry.

A leave is evaluated with the leaver's own mask.  Where a coalition lists another agent
under the leaver's id, the fresh magnitude counts the first of the two, and the answers can
differ.
-/

namespace Koalisi.Decision

open Koalisi.Lib
open Koalisi.Harness (CapabilityAgent)
open Koalisi.Topology (Decision DecisionContext)

variable {K : Type} [Field K] [LinearOrder K]

/-- What a policy is asked. -/
inductive Call (cg : CatgraphMagnitude K) where
  | join (policy : MagnitudePolicy cg) (agent : CapabilityAgent)
    (coalition : List CapabilityAgent) (ctx : DecisionContext)
  | leave (policy : MagnitudePolicy cg) (agent : CapabilityAgent)
    (coalition : List CapabilityAgent) (ctx : DecisionContext)

namespace Call

variable {cg : CatgraphMagnitude K}

/-- Ask the policy. -/
def answer : Call cg → Locked cg (Decision K)
  | join policy agent coalition ctx => policy.shouldJoin agent coalition ctx
  | leave policy agent coalition ctx => policy.shouldLeave agent coalition ctx

/-- The decision from two fresh magnitudes. -/
def fresh : Call cg → Decision K
  | join policy agent coalition ctx =>
      let (masksWith, masksWithout) := joinMasks agent coalition ctx.requiredCapabilities
      freshJoin cg ctx.requiredCapabilities masksWith masksWithout policy.joinMargin
  | leave _ agent coalition ctx =>
      let (masksIn, masksOut) := leaveMasks agent coalition ctx.requiredCapabilities
      freshLeave cg ctx.requiredCapabilities masksIn masksOut

/-- The magnitude with the agent. -/
def magWith : Call cg → Except cg.CatgraphError K
  | join _ agent coalition ctx =>
      magnitudeOrZero cg (joinMasks agent coalition ctx.requiredCapabilities).1
        ctx.requiredCapabilities
  | leave _ agent coalition ctx =>
      magnitudeOrZero cg (leaveMasks agent coalition ctx.requiredCapabilities).1
        ctx.requiredCapabilities

/-- What the score is compared with. -/
def threshold : Call cg → K
  | join policy _ _ _ => policy.joinMargin
  | leave _ _ _ _ => 0

/-- The policy has no roles. -/
def Untyped : Call cg → Prop
  | join policy _ _ _ => policy.typed = none
  | leave policy _ _ _ => policy.typed = none

/-- Nobody else is listed under the leaver's id with other capabilities. -/
def OwnMask : Call cg → Prop
  | join _ _ _ _ => True
  | leave _ agent coalition _ =>
      ∀ a ∈ coalition, a.id = agent.id → a.capabilities = agent.capabilities

variable [IsStrictOrderedRing K] {guard : Option (EvaluatorCache cg)}

/-- One answer, from a cache that is in step. -/
theorem answer_settles (hcg : cg.Exact) (call : Call cg) (huntyped : call.Untyped)
    (hown : call.OwnMask) (h : Sound guard) :
    Settles call.answer guard fun decision guard' ↦
      Sound guard' ∧ Freezes call.threshold (answerError call.magWith) call.fresh decision := by
  cases call with
  | join policy agent coalition ctx =>
      change Settles (policy.shouldJoin agent coalition ctx) guard _
      rw [MagnitudePolicy.shouldJoin, show policy.typed = none from huntyped]
      exact joinDispatch_settles hcg h policy.joinMargin joinMasks_cases
  | leave policy agent coalition ctx =>
      change Settles (policy.shouldLeave agent coalition ctx) guard _
      rw [MagnitudePolicy.shouldLeave, show policy.typed = none from huntyped]
      cases hvariant : policy.leaveVariant with
      | fresh => exact .pure ⟨h, .refl (answerError_nonneg _) _⟩
      | evaluator => exact leaveDispatchEvaluator_settles hcg h (leaveMasks_cases hown)

/-- Whatever is asked, the cache stays sound. -/
theorem answer_sound (hcg : cg.Exact) (call : Call cg) (h : Sound guard) :
    Settles call.answer guard fun _ guard' ↦ Sound guard' := by
  cases call with
  | join policy agent coalition ctx =>
      change Settles (policy.shouldJoin agent coalition ctx) guard _
      rw [MagnitudePolicy.shouldJoin]
      cases policy.typed with
      | none =>
          exact (joinDispatch_settles hcg h policy.joinMargin joinMasks_cases).imp
            fun _ _ hd ↦ hd.1
      | some cfg =>
          dsimp only
          cases typedJoinSides cg cfg agent coalition ctx.requiredCapabilities with
          | none => exact .pure h
          | some sides => exact .pure h
  | leave policy agent coalition ctx =>
      change Settles (policy.shouldLeave agent coalition ctx) guard _
      rw [MagnitudePolicy.shouldLeave]
      cases policy.typed with
      | none =>
          cases policy.leaveVariant with
          | fresh => exact .pure h
          | evaluator => exact leaveDispatchEvaluator_sound hcg h
      | some cfg =>
          dsimp only
          cases typedLeaveSides cg cfg agent coalition ctx.requiredCapabilities with
          | none => exact .pure h
          | some sides => exact .pure h

/-- Answers one after the other. -/
theorem answers_settle (hcg : cg.Exact) {calls : List (Call cg)}
    (huntyped : ∀ call ∈ calls, call.Untyped) (hown : ∀ call ∈ calls, call.OwnMask)
    (h : Sound guard) :
    Settles (calls.mapM answer) guard fun decisions guard' ↦ Sound guard' ∧
      List.Forall₂ (fun call decision ↦
        Freezes call.threshold (answerError call.magWith) call.fresh decision) calls decisions :=
  .mapM (fun call hcall _ ht ↦ answer_settles hcg call (huntyped call hcall) (hown call hcall) ht) h

/-- A cache that policies can leave behind, whatever they were asked. -/
def Reachable (guard : Option (EvaluatorCache cg)) : Prop :=
  ∃ (calls : List (Call cg)) (decisions : List (Decision K)),
    (calls.mapM answer).run none = some (decisions, guard)

theorem Reachable.sound (hcg : cg.Exact) (h : Reachable guard) : Sound guard := by
  obtain ⟨calls, decisions, hrun⟩ := h
  have hsettles : Settles (calls.mapM answer) none fun decisions guard' ↦ Sound guard' ∧
      List.Forall₂ (fun _ _ ↦ True) calls decisions :=
    .mapM (fun call _ _ ht ↦ (answer_sound hcg call ht).imp fun _ _ hsound ↦ ⟨hsound, trivial⟩)
      sound_none
  exact (hsettles.of_run hrun).1

end Call

/-! ## The slots of the evaluator -/

variable {cg : CatgraphMagnitude K}

/-- The evaluator was built with the members in the first slots, and a candidate's slot has
the couplings of the mask at its place in the registry. -/
def EvaluatorCache.SlotsFromRegistry (c : EvaluatorCache cg) : Prop :=
  ∃ couplings, cg.newEvaluator (List.range (c.memberMasks.length + c.candidateMasks.length))
      couplings (List.range c.memberMasks.length) 1 = .ok c.evaluator ∧
    ∀ pos cand i mem, c.candidateMasks[pos]? = some cand → c.memberMasks[i]? = some mem → ∀ p,
      ((i, c.memberMasks.length + pos, p) ∈ couplings ↔ 0 < p ∧ p = coupling mem cand c.required) ∧
      ((c.memberMasks.length + pos, i, p) ∈ couplings ↔ 0 < p ∧ p = coupling cand mem c.required)

theorem EvaluatorCache.Coherent.slotsFromRegistry {c : EvaluatorCache cg} (h : c.Coherent) :
    c.SlotsFromRegistry := by
  refine ⟨_, h.built, fun pos cand i mem hpos hi p ↦ ?_⟩
  obtain ⟨hlt, -⟩ := List.getElem?_eq_some_iff.mp hi
  have hslot : (c.memberMasks ++ c.candidateMasks)[c.memberMasks.length + pos]? = some cand := by
    rw [List.getElem?_append_right (Nat.le_add_right _ _), Nat.add_sub_cancel_left]
    exact hpos
  have hmember : (c.memberMasks ++ c.candidateMasks)[i]? = some mem :=
    (List.getElem?_append_left hlt).trans hi
  rw [mem_evaluatorCouplings, mem_evaluatorCouplings, hslot, hmember]
  constructor
  · constructor
    · rintro ⟨-, -, hp, _, _, ⟨⟩, ⟨⟩, rfl⟩
      exact ⟨hp, rfl⟩
    · rintro ⟨hp, rfl⟩
      exact ⟨by omega, .inl hlt, hp, mem, cand, rfl, rfl, rfl⟩
  · constructor
    · rintro ⟨-, -, hp, _, _, ⟨⟩, ⟨⟩, rfl⟩
      exact ⟨hp, rfl⟩
    · rintro ⟨hp, rfl⟩
      exact ⟨by omega, .inr hlt, hp, cand, mem, rfl, rfl, rfl⟩

/-- What holds of the cache between two calls. -/
structure EvaluatorCache.InStep (c : EvaluatorCache cg) : Prop where
  nodup : c.candidateMasks.Nodup
  le_cap : c.candidateMasks.length ≤ registryCap
  slots : c.SlotsFromRegistry

/-- Whatever policies that share a cache are asked, they act just when two fresh magnitudes
would have it, and the cache is in step after every call. -/
theorem decisions_frozen [IsStrictOrderedRing K] (hcg : cg.Exact) (calls : List (Call cg))
    (huntyped : ∀ call ∈ calls, call.Untyped) (hown : ∀ call ∈ calls, call.OwnMask) :
    ∃ decisions guard, (calls.mapM Call.answer).run none = some (decisions, guard) ∧
      decisions.map (·.act) = calls.map (·.fresh.act) ∧ ∀ c ∈ guard, c.InStep := by
  obtain ⟨decisions, guard, hrun, hsound, hfrozen⟩ :=
    Call.answers_settle hcg huntyped hown sound_none
  refine ⟨decisions, guard, hrun, ?_, fun c hc ↦ ?_⟩
  · clear hrun
    induction hfrozen with
    | nil => rfl
    | cons hd _ ih =>
        rw [List.map_cons, List.map_cons, hd.act_eq,
          ih (fun call hcall ↦ huntyped call (List.mem_cons_of_mem _ hcall))
            (fun call hcall ↦ hown call (List.mem_cons_of_mem _ hcall))]
  · have hcoherent := hsound c hc
    exact ⟨hcoherent.nodup, hcoherent.le_cap, hcoherent.slotsFromRegistry⟩

/-! ## A sample -/

theorem exact_kindsCatgraph_zero : (kindsCatgraph 0).Exact :=
  exact_kindsCatgraph (by rw [abs_zero]; exact incrementalRelTol_nonneg)

def samplePolicy : MagnitudePolicy (kindsCatgraph 0) := ⟨0, .evaluator, none⟩

/-- A coalition grows, a clone and a double are turned away, and under another task the
member that holds nothing of it goes. -/
def sampleCalls : List (Call (kindsCatgraph 0)) :=
  [.join samplePolicy ⟨1, 0b01, 50⟩ [] ⟨0b11⟩,
    .join samplePolicy ⟨2, 0b10, 50⟩ [⟨1, 0b01, 50⟩] ⟨0b11⟩,
    .join samplePolicy ⟨3, 0b10, 50⟩ [⟨1, 0b01, 50⟩, ⟨2, 0b10, 50⟩] ⟨0b11⟩,
    .join samplePolicy ⟨1, 0b01, 50⟩ [⟨1, 0b01, 50⟩, ⟨2, 0b10, 50⟩] ⟨0b11⟩,
    .leave samplePolicy ⟨2, 0b10, 50⟩ [⟨1, 0b01, 50⟩, ⟨2, 0b10, 50⟩] ⟨0b01⟩]

theorem the_sample_is_frozen :
    ∃ decisions guard, (sampleCalls.mapM Call.answer).run none = some (decisions, guard) ∧
      decisions.map (·.act) = [true, true, false, false, true] ∧ ∀ c ∈ guard, c.InStep := by
  have hacts : sampleCalls.map (·.fresh.act) = [true, true, false, false, true] := by
    decide +kernel
  have hown : ∀ a ∈ ([⟨1, 0b01, 50⟩, ⟨2, 0b10, 50⟩] : List CapabilityAgent),
      a.id = 2 → a.capabilities = 0b10 := by decide
  rw [← hacts]
  refine decisions_frozen exact_kindsCatgraph_zero sampleCalls ?_ ?_
  · simp only [sampleCalls, List.forall_mem_cons]
    exact ⟨rfl, rfl, rfl, rfl, rfl, List.forall_mem_nil _⟩
  · simp only [sampleCalls, List.forall_mem_cons]
    exact ⟨trivial, trivial, trivial, trivial, hown, List.forall_mem_nil _⟩

/-- An agent that is listed after another one of its id, which is like a third member. -/
def namesake : Call (kindsCatgraph 0) :=
  .leave samplePolicy ⟨1, 0b01, 50⟩ [⟨1, 0b10, 50⟩, ⟨1, 0b01, 50⟩, ⟨2, 0b10, 50⟩] ⟨0b11⟩

/-- Two fresh magnitudes let the agent go, and the evaluator keeps it. -/
theorem namesake_is_not_frozen :
    (kindsCatgraph 0).Exact ∧ namesake.Untyped ∧
      ((([namesake].mapM Call.answer).run none).map fun r ↦ r.1.map (·.act)) = some [false] ∧
      [namesake].map (·.fresh.act) = [true] :=
  ⟨exact_kindsCatgraph_zero, rfl, by decide +kernel, by decide +kernel⟩

end Koalisi.Decision
