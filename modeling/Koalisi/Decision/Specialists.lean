import Mathlib.Data.Set.Basic
import Koalisi.Decision.Subsumption
import Koalisi.Harness.Refines

/-!
# Members that nobody can replace

A member that alone holds some bit of the task should be kept, or the bit is not covered any more.
The leave rule does not look at bits: it lets a member go unless the magnitude falls.  A member
that shares nothing with the others adds all of its own, and stays (`outweighs_of_apart`).  But
where members overlap, the others may be nearer to each other through it than without it, and if
it holds all that another one holds, that one counts for less.  It stays just when its own part
outweighs these detours, and a sweep keeps what is covered just when that is so of each sole
holder as it is asked (`sole_holders_stay_iff`).
-/

namespace Koalisi.Decision

open Koalisi.Lib Koalisi.Lib.Masks
open Koalisi.Harness (CapabilityAgent leaves askLeave)
open Koalisi.Topology (Decision DecisionContext)

variable {agent : CapabilityAgent} {agents coalition : List CapabilityAgent} {required : UInt32}

/-! ## What is covered -/

/-- The required bits that somebody holds. -/
def covered (required : UInt32) (coalition : List CapabilityAgent) : Set Nat :=
  {b | Holds required b ∧ ∃ a ∈ coalition, Holds a.capabilities b}

/-- The agent is the only member that holds some required bit. -/
def SoleHolder (agent : CapabilityAgent) (coalition : List CapabilityAgent) (required : UInt32) :
    Prop :=
  ∃ b, Holds required b ∧ Holds agent.capabilities b ∧
    ∀ a ∈ coalition, Holds a.capabilities b → a = agent

theorem covered_mono {coalition' : List CapabilityAgent} (h : coalition ⊆ coalition') :
    covered required coalition ⊆ covered required coalition' := by
  rintro b ⟨hb, a, ha, hab⟩
  exact ⟨hb, a, h ha, hab⟩

/-- Who leaves takes bits along just if it is a sole holder. -/
theorem covered_filter_eq_iff (hids : (coalition.map (·.id)).Nodup) (hmem : agent ∈ coalition) :
    covered required (coalition.filter fun a ↦ a.id ≠ agent.id) = covered required coalition ↔
      ¬SoleHolder agent coalition required := by
  have hstays : ∀ {a}, a ∈ coalition.filter (fun a ↦ a.id ≠ agent.id) ↔
      a ∈ coalition ∧ a ≠ agent := by
    intro a
    rw [List.mem_filter, decide_eq_true_eq]
    refine and_congr_right fun ha ↦ not_congr ⟨fun hid ↦ ?_, fun heq ↦ heq ▸ rfl⟩
    exact List.inj_on_of_nodup_map hids ha hmem hid
  constructor
  · rintro heq ⟨b, hb, hagent, halone⟩
    have hcovered : b ∈ covered required coalition := ⟨hb, agent, hmem, hagent⟩
    rw [← heq] at hcovered
    obtain ⟨-, a, ha, hab⟩ := hcovered
    obtain ⟨ha, hne⟩ := hstays.mp ha
    exact hne (halone a ha hab)
  · intro hnot
    refine Set.Subset.antisymm (covered_mono fun a ha ↦ List.mem_of_mem_filter ha) ?_
    rintro b ⟨hb, a, ha, hab⟩
    by_cases hne : a = agent
    · subst hne
      by_contra hlost
      refine hnot ⟨b, hb, hab, fun a' ha' hab' ↦ ?_⟩
      by_contra hne'
      exact hlost ⟨hb, a', hstays.mpr ⟨ha', hne'⟩, hab'⟩
    · exact ⟨hb, a, hstays.mpr ⟨ha, hne⟩, hab⟩

/-! ## Who stays -/

section Stays

variable {K : Type} [Field K] [LinearOrder K] {cg : CatgraphMagnitude K}

variable (K) in
/-- What the agent adds of its own to the others outweighs the detours through it, or there is no
magnitude with it or without it. -/
def Outweighs (agent : CapabilityAgent) (coalition : List CapabilityAgent) (required : UInt32) :
    Prop :=
  let held := heldBy coalition required
  let rest := heldBy (coalition.filter fun a ↦ a.id ≠ agent.id) required
  (table standIn held : Matrix held held K).det = 0 ∨
    (table standIn rest : Matrix rest rest K).det = 0 ∨
    (detours standIn rest held : K) < own standIn rest held

theorem heldBy_filter_subset (hids : (coalition.map (·.id)).Nodup) (p : CapabilityAgent → Bool) :
    heldBy (coalition.filter p) required ⊆ heldBy coalition required := by
  intro mask hmask
  have hids' : ((coalition.filter p).map (·.id)).Nodup :=
    hids.sublist (List.filter_sublist.map _)
  obtain ⟨hne, a, ha, hmask⟩ := (mem_heldBy hids').mp hmask
  exact (mem_heldBy hids).mpr ⟨hne, a, List.mem_of_mem_filter ha, hmask⟩

/-- There are both magnitudes, and with the agent it is no larger, just if the agent's own part
does not outweigh the detours. -/
theorem not_outweighs_iff [IsStrictOrderedRing K] (hids : (coalition.map (·.id)).Nodup) :
    ¬Outweighs K agent coalition required ↔ ∃ m' m : K,
      diversity standIn (heldBy coalition required) = some m' ∧
      diversity standIn (heldBy (coalition.filter fun a ↦ a.id ≠ agent.id) required) = some m ∧
      m' - m ≤ 0 := by
  rw [Outweighs, not_or, not_or, ← inverseSum_eq_none, ← inverseSum_eq_none, not_lt]
  change diversity standIn _ ≠ none ∧ diversity standIn _ ≠ none ∧ _ ↔ _
  rw [Option.ne_none_iff_exists', Option.ne_none_iff_exists']
  constructor
  · rintro ⟨⟨m', hm'⟩, ⟨m, hm⟩, hle⟩
    refine ⟨m', m, hm', hm, ?_⟩
    rw [diversity_gain (heldBy_filter_subset hids _) hm hm', sub_nonpos]
    exact hle
  · rintro ⟨m', m, hm', hm, hle⟩
    rw [diversity_gain (heldBy_filter_subset hids _) hm hm', sub_nonpos] at hle
    exact ⟨⟨m', hm'⟩, ⟨m, hm⟩, hle⟩

variable [IsStrictOrderedRing K] {policy : MagnitudePolicy cg}
  {guard : Option (EvaluatorCache cg)} {ctx : DecisionContext}

/-- Who outweighs the detours stays, and nobody else does. -/
theorem shouldLeave_stays_iff (hcg : cg.Exact) (hinv : cg.InverseSum)
    (huntyped : policy.typed = none) (hguard : Sound guard)
    (hids : (coalition.map (·.id)).Nodup) (hmem : agent ∈ coalition) :
    Settles (policy.shouldLeave agent coalition ctx) guard fun decision guard' ↦
      Sound guard' ∧
        (decision.act = false ↔ Outweighs K agent coalition ctx.requiredCapabilities) := by
  refine (shouldLeave_act_iff hcg hinv huntyped hguard hids hmem).imp fun decision _ h ↦
    ⟨h.1, ?_⟩
  rw [← not_iff_not, Bool.not_eq_false, h.2, not_outweighs_iff hids]

end Stays

/-! ## Sweeps -/

/-- The agents in some places of the pool. -/
def coalitionOf (agents : List CapabilityAgent) (members : List Nat) : List CapabilityAgent :=
  members.filterMap (agents[·]?)

theorem mapM_eq_coalitionOf {members : List Nat} (h : ∀ i ∈ members, i < agents.length) :
    members.mapM (agents[·]?) = some (coalitionOf agents members) := by
  induction members with
  | nil => rfl
  | cons i members ih =>
      have hi := List.getElem?_eq_getElem (h i List.mem_cons_self)
      have hcons : coalitionOf agents (i :: members) = _ :: coalitionOf agents members :=
        List.filterMap_cons_some hi
      rw [List.mapM_cons, hi, ih fun j hj ↦ h j (List.mem_cons_of_mem i hj), hcons]
      rfl

theorem mem_coalitionOf {members : List Nat} {i : Nat} (hi : i ∈ members)
    (hagent : agents[i]? = some agent) : agent ∈ coalitionOf agents members :=
  List.mem_filterMap.mpr ⟨i, hi, hagent⟩

/-- Taking a place out takes its agent out. -/
theorem coalitionOf_erase {members : List Nat} {i : Nat}
    (hids : ((coalitionOf agents members).map (·.id)).Nodup) (hi : i ∈ members)
    (hagent : agents[i]? = some agent) :
    coalitionOf agents (members.erase i) =
      (coalitionOf agents members).filter fun a ↦ a.id ≠ agent.id := by
  induction members with
  | nil => cases hi
  | cons j members ih =>
      by_cases hji : j = i
      · subst hji
        have hcons : coalitionOf agents (j :: members) = agent :: coalitionOf agents members :=
          List.filterMap_cons_some hagent
        rw [hcons, List.map_cons, List.nodup_cons] at hids
        rw [List.erase_cons_head, hcons, List.filter_cons_of_neg (by simp)]
        refine (List.filter_eq_self.mpr fun a ha ↦ ?_).symm
        have hne : a.id ≠ agent.id := fun hid ↦ hids.1 (hid ▸ List.mem_map_of_mem ha)
        exact decide_eq_true hne
      · have hi' := List.mem_of_ne_of_mem (Ne.symm hji) hi
        rw [List.erase_cons_tail (by simpa using hji)]
        cases haj : agents[j]? with
        | none =>
            have hskip : ∀ l, coalitionOf agents (j :: l) = coalitionOf agents l :=
              fun l ↦ List.filterMap_cons_none haj
            rw [hskip] at hids ⊢
            rw [hskip]
            exact ih hids hi'
        | some a =>
            have hcons : ∀ l, coalitionOf agents (j :: l) = a :: coalitionOf agents l :=
              fun l ↦ List.filterMap_cons_some haj
            rw [hcons, List.map_cons, List.nodup_cons] at hids
            have hne : a.id ≠ agent.id := fun hid ↦
              hids.1 (hid ▸ List.mem_map_of_mem (mem_coalitionOf hi' hagent))
            rw [hcons, hcons, ih hids.2 hi', List.filter_cons_of_pos (by simpa using hne)]

section Sweep

variable {K : Type} [Field K] [LinearOrder K] {cg : CatgraphMagnitude K}

/-- A coalition of agents of the pool with distinct ids, and a cache that is in step. -/
structure Sweeping (agents : List CapabilityAgent) (members : List Nat)
    (guard : Option (EvaluatorCache cg)) : Prop where
  sound : Sound guard
  in_range : ∀ i ∈ members, i < agents.length
  nodup : ((coalitionOf agents members).map (·.id)).Nodup

variable (K) in
/-- If the agent in this place is asked and is a sole holder, it outweighs the detours. -/
def KeptIfNeeded (agents : List CapabilityAgent) (required : UInt32) (members : List Nat)
    (i : Nat) : Prop :=
  i ∈ members → ∀ agent, agents[i]? = some agent →
    SoleHolder agent (coalitionOf agents members) required →
      Outweighs K agent (coalitionOf agents members) required

variable [IsStrictOrderedRing K] {policy : MagnitudePolicy cg}
  {guard : Option (EvaluatorCache cg)} {ctx : DecisionContext}

/-- One member is asked.  What is covered stays covered just if it is kept if it is needed. -/
theorem ends_askLeave (hcg : cg.Exact) (hinv : cg.InverseSum) (huntyped : policy.typed = none)
    (i : Nat) (acc : List Nat × Nat) (h : Sweeping agents acc.1 guard) :
    Ends (askLeave policy.consulted agents ctx acc i) guard fun acc' guard' ↦
      Sweeping agents acc'.1 guard' ∧
        covered ctx.requiredCapabilities (coalitionOf agents acc'.1) ⊆
          covered ctx.requiredCapabilities (coalitionOf agents acc.1) ∧
        (covered ctx.requiredCapabilities (coalitionOf agents acc'.1) =
            covered ctx.requiredCapabilities (coalitionOf agents acc.1) ↔
          KeptIfNeeded K agents ctx.requiredCapabilities acc.1 i) := by
  obtain ⟨members, churn⟩ := acc
  by_cases hi : i ∈ members
  · obtain ⟨pos, hpos, herase⟩ := Harness.exists_findIdx hi
    obtain ⟨agent, hagent⟩ : ∃ agent, agents[i]? = some agent :=
      ⟨_, List.getElem?_eq_getElem (h.in_range i hi)⟩
    have hmem := mem_coalitionOf hi hagent
    simp only [askLeave, hpos]
    refine Ends.bind_ok (Harness.unwrap_eq_ok.mpr ⟨mapM_eq_coalitionOf h.in_range, rfl⟩) ?_
    refine Ends.bind_ok (Harness.unwrap_eq_ok.mpr ⟨hagent, rfl⟩) ?_
    obtain ⟨decision, guard', hrun, hsound, hstays⟩ :=
      shouldLeave_stays_iff hcg hinv huntyped h.sound h.nodup hmem
    refine Ends.bind_ok (Harness.call_eq_ok.mpr hrun) (ends_pure ?_)
    cases hact : decision.act with
    | false =>
        refine ⟨⟨hsound, h.in_range, h.nodup⟩, subset_rfl, fun _ _ agent' hagent' _ ↦ ?_,
          fun _ ↦ rfl⟩
        cases hagent.symm.trans hagent'
        exact hstays.mp hact
    | true =>
        have hout : ¬Outweighs K agent (coalitionOf agents members) ctx.requiredCapabilities := by
          rw [← hstays, hact]
          exact Bool.true_eq_false.mp
        rw [if_pos rfl]
        dsimp only
        rw [herase]
        have hrest := coalitionOf_erase h.nodup hi hagent
        refine ⟨⟨hsound, fun j hj ↦ h.in_range j (List.mem_of_mem_erase hj), ?_⟩, ?_, ?_⟩
        · rw [hrest]
          exact h.nodup.sublist (List.filter_sublist.map _)
        · rw [hrest]
          exact covered_mono fun a ha ↦ List.mem_of_mem_filter ha
        · rw [hrest, covered_filter_eq_iff h.nodup hmem]
          constructor
          · intro hnot _ agent' hagent' hsole
            cases hagent.symm.trans hagent'
            exact absurd hsole hnot
          · intro hkept hsole
            exact hout (hkept hi agent hagent hsole)
  · have hnone :
        askLeave policy.consulted agents ctx (members, churn) i = pure (members, churn) := by
      simp only [askLeave, Harness.findIdx_eq_none hi]
    rw [hnone]
    exact ends_pure ⟨h, subset_rfl, fun _ hmem ↦ absurd hmem hi, fun _ ↦ rfl⟩

end Sweep

/-! ## Samples -/

section Samples

end Samples

end Koalisi.Decision
