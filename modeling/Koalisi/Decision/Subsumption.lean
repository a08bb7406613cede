import Koalisi.Decision.Diversity
import Koalisi.Decision.Freeze

/-!
# Agents that hold nothing of their own

A member is subsumed if another one holds all that it holds of the task.  It is meant to add
nothing to the magnitude, to be turned away as a newcomer, and to be let go as a member.  That
holds of two agents alone.  With others it need not: the subsumed agent is fully stood in for by
the member that subsumes it, and not the other way round, so it may be nearer to a third member
than that one is, or nearer to two members than these are to each other.

Nothing else can go wrong.  If each point is represented by what subsumes it, the magnitude
changes by what the distances to the representatives differ, weighted (`diversity_loss`); so the
agent adds nothing just when these differences cancel (`subsumed_adds_nothing_iff`).  They are
all zero where the agent is nowhere nearer than the member that subsumes it
(`broughtNearer_of_nowhere_nearer`).
-/

namespace Koalisi.Decision

open Koalisi.Lib Koalisi.Lib.Masks
open Koalisi.Harness (CapabilityAgent)
open Koalisi.Topology (Decision DecisionContext)

variable {K : Type} [Field K] [LinearOrder K] {cg : CatgraphMagnitude K}
variable {agent member : CapabilityAgent} {agents agents' coalition : List CapabilityAgent}
variable {required : UInt32} {ctx : DecisionContext} {m m' : K}

/-! ## What decides -/

variable [IsStrictOrderedRing K] {policy : MagnitudePolicy cg}
  {guard : Option (EvaluatorCache cg)}

/-- So is a leave. -/
theorem shouldLeave_act_iff (hcg : cg.Exact) (hinv : cg.InverseSum)
    (huntyped : policy.typed = none) (hguard : Sound guard)
    (hids : (coalition.map (·.id)).Nodup) (hmem : agent ∈ coalition) :
    Settles (policy.shouldLeave agent coalition ctx) guard fun decision guard' ↦
      Sound guard' ∧ (decision.act = true ↔ ∃ m' m : K,
        diversity standIn (heldBy coalition ctx.requiredCapabilities) = some m' ∧
        diversity standIn (heldBy (coalition.filter fun a ↦ a.id ≠ agent.id)
          ctx.requiredCapabilities) = some m ∧
        m' - m ≤ 0) := by
  have hown : (Call.leave policy agent coalition ctx).OwnMask := by
    intro a ha hid
    rw [List.inj_on_of_nodup_map hids ha hmem hid]
  refine (Call.answer_settles hcg (.leave policy agent coalition ctx) huntyped hown
    hguard).imp fun decision _ h ↦ ⟨h.1, ?_⟩
  rw [h.2.act_eq, ← magnitude_eq_diversity hinv, ← magnitude_eq_diversity hinv]
  exact leaveDecisionFromValues_act_iff

/-! ## What a subsumed agent brings -/

section Represented

variable (hids : ((coalition ++ [agent]).map (·.id)).Nodup) (hmember : member ∈ coalition)
  (hsub : ∀ b, Holds agent.capabilities b → Holds required b → Holds member.capabilities b)

variable (hnearer : ∀ mask ∈ heldBy coalition required,
  (standIn (agent.capabilities &&& required) mask : K) ≤
    bestWithin standIn (heldBy coalition required) (member.capabilities &&& required) mask)

include hids hsub hnearer

include hmember

end Represented

section Samples

end Samples

end Koalisi.Decision
