import Mathlib.Algebra.Order.Floor.Semifield
import Mathlib.Data.Rat.Floor
import Koalisi.Algorithms.Calculators
import Koalisi.Lib.Dealing

/-!
# Distributing the value calculations

The indices of the coalitions are distributed over the agents in proportion to their trust:
consecutive indices for each, as many as the agent's part rounded down, and the rest one by
one, to the most trusted agents first.  The shares are kept in a map by agent id, so an agent
takes the place of an earlier one with its id, and the indices of that one are lost.

No law of arithmetic is needed for the distribution to be a partition, only for the parts to be
what they should.  Then the arithmetic is that of an ordered field.  A division by zero gives
zero there; the quotient of the code is not a number then, and its floor as an index is zero too.
-/

namespace Koalisi.Algorithms

open Koalisi.Harness (CapabilityAgent)
open Koalisi.Lib
open Koalisi.Lib.Dealing

/-! ## The code -/

structure WorkloadShare where
  agentId : Nat
  coalitionIndices : List Nat
  shareSize : Nat
deriving DecidableEq, Repr

/-- The shares by agent id. -/
abbrev Workload : Type := AList fun _ : Nat ↦ WorkloadShare

structure DCVCDistributor where
  workloadDistribution : Workload

section Distribute

variable {F : Type} [NatCast F] [Zero F] [Add F] [Mul F] [Div F]

/-- The part of one agent, from the first index that is not distributed. -/
def assignShare (floor : F → Nat) (totalCoalitions : Nat) (totalSpeed : F)
    (slot : Workload × Nat) (agent : CapabilityAgent) : Workload × Nat :=
  let startIdx := slot.2
  let speed : F := agent.trust.toNat
  let shareFraction := speed / totalSpeed
  let shareSize := floor ((totalCoalitions : F) * shareFraction)
  let endIdx := min (startIdx + shareSize) totalCoalitions
  let coalitionIndices := List.range' startIdx (endIdx - startIdx)
  (slot.1.insert agent.id
    { agentId := agent.id
      coalitionIndices := coalitionIndices
      shareSize := endIdx - startIdx }, endIdx)

/-- One more index for an agent that has a share. -/
def pushIndex (workload : Workload) (agent : CapabilityAgent) (idx : Nat) : Workload :=
  match workload.lookup agent.id with
  | none => workload
  | some share => workload.insert agent.id
      { share with
        coalitionIndices := share.coalitionIndices ++ [idx]
        shareSize := share.shareSize + 1 }

/-- The remaining indices in turn to the fastest agents. -/
def assignRemaining (sorted : List CapabilityAgent) (workload : Workload)
    (remainingIndices : List Nat) : Option Workload :=
  remainingIndices.zipIdx.foldlM (fun workload slot ↦ do
    let agent ← sorted[slot.2 % sorted.length]?
    return pushIndex workload agent slot.1) workload

/-- Distribute workload proportional to each agent's trust level (speed proxy). -/
def distributeWorkload (floor : F → Nat) (agents : List CapabilityAgent)
    (totalCoalitions : Nat) : Option DCVCDistributor :=
  if agents.isEmpty || totalCoalitions == 0 then some { workloadDistribution := ∅ }
  else do
    let totalSpeed : F := (agents.map fun a ↦ (a.trust.toNat : F)).foldl (· + ·) 0
    let (workload, startIdx) := agents.foldl (assignShare floor totalCoalitions totalSpeed) (∅, 0)
    if startIdx < totalCoalitions then
      let remainingIndices := List.range' startIdx (totalCoalitions - startIdx)
      let sorted := agents.mergeSort fun a b ↦ decide (b.trust ≤ a.trust)
      let workload ← assignRemaining sorted workload remainingIndices
      return { workloadDistribution := workload }
    else return { workloadDistribution := workload }

end Distribute

namespace DCVCDistributor

def getAgentShare (self : DCVCDistributor) (agentId : Nat) : Option WorkloadShare :=
  self.workloadDistribution.lookup agentId

/-- The indices of an agent, none if it has no share. -/
def indicesOf (self : DCVCDistributor) (agentId : Nat) : List Nat :=
  (self.getAgentShare agentId).elim [] (·.coalitionIndices)

/-- The size of an agent's share, zero if it has none. -/
def shareSizeOf (self : DCVCDistributor) (agentId : Nat) : Nat :=
  (self.getAgentShare agentId).elim 0 (·.shareSize)

/-- The shares, in one of the orders in which a map is gone through. -/
def shares (self : DCVCDistributor) : List WorkloadShare :=
  self.workloadDistribution.entries.map (·.2)

end DCVCDistributor

/-- Tick an index off, unless it is out of range or has been ticked off. -/
def cover (totalCoalitions : Nat) (covered : List Bool) (idx : Nat) : Option (List Bool) :=
  if totalCoalitions ≤ idx || covered.getD idx false then none else some (covered.set idx true)

/-- Whether the shares cover all indices, in the order in which they are gone through. -/
def verifyDistribution (shares : List WorkloadShare) (totalCoalitions : Nat) : Bool :=
  match shares.foldlM (fun covered share ↦
      share.coalitionIndices.foldlM (cover totalCoalitions) covered)
      (List.replicate totalCoalitions false) with
  | none => false
  | some covered => covered.all id

/-- Every index below the total is in one of the shares, and there once. -/
def Partitions (shares : List WorkloadShare) (totalCoalitions : Nat) : Prop :=
  (shares.flatMap (·.coalitionIndices)).Perm (List.range totalCoalitions)

/-! ## What the check accepts -/

section Verify

variable {totalCoalitions : Nat}

/-- The ticks of the indices in a list. -/
def ticks (totalCoalitions : Nat) (done : List Nat) : List Bool :=
  (List.range totalCoalitions).map fun i ↦ decide (i ∈ done)

theorem getD_ticks {done : List Nat} {idx : Nat} (h : idx < totalCoalitions) :
    (ticks totalCoalitions done).getD idx false = decide (idx ∈ done) := by
  rw [ticks, List.getD_eq_getElem?_getD, List.getElem?_map, List.getElem?_range h,
    Option.map_some, Option.getD_some]

theorem cover_ticks {done : List Nat} {idx : Nat} (h : idx < totalCoalitions) (hnew : idx ∉ done) :
    cover totalCoalitions (ticks totalCoalitions done) idx =
      some (ticks totalCoalitions (done ++ [idx])) := by
  rw [cover, getD_ticks h, decide_eq_false hnew, Bool.or_false, if_neg (by simpa using h)]
  refine congrArg some (List.ext_getElem ?_ fun i h₁ h₂ ↦ ?_)
  · rw [List.length_set, ticks, ticks, List.length_map, List.length_map]
  · simp only [ticks, List.getElem_set, List.getElem_map, List.getElem_range, List.mem_append,
      List.mem_singleton]
    split
    · rename_i heq
      simp [heq]
    · rename_i hne
      simp [Ne.symm hne]

/-- Indices are ticked off if they are in range, and none is there twice. -/
theorem foldlM_cover {indices done : List Nat} : indices.foldlM (cover totalCoalitions)
    (ticks totalCoalitions done) =
      if indices.Nodup ∧ ∀ idx ∈ indices, idx < totalCoalitions ∧ idx ∉ done then
        some (ticks totalCoalitions (done ++ indices))
      else none := by
  induction indices generalizing done with
  | nil => simp
  | cons idx indices ih =>
      rw [List.foldlM_cons]
      by_cases hidx : idx < totalCoalitions ∧ idx ∉ done
      · rw [cover_ticks hidx.1 hidx.2, Option.bind_eq_bind, Option.bind_some, ih,
          List.append_assoc, List.singleton_append]
        refine if_congr ?_ rfl rfl
        simp only [List.nodup_cons, List.forall_mem_cons, List.mem_append, List.mem_singleton]
        constructor
        · rintro ⟨hnodup, h⟩
          exact ⟨⟨fun hmem ↦ (h idx hmem).2 (Or.inr rfl), hnodup⟩, hidx,
            fun i hi ↦ ⟨(h i hi).1, fun hdone ↦ (h i hi).2 (Or.inl hdone)⟩⟩
        · rintro ⟨⟨hnew, hnodup⟩, -, h⟩
          refine ⟨hnodup, fun i hi ↦ ⟨(h i hi).1, ?_⟩⟩
          rintro (hdone | rfl)
          · exact (h i hi).2 hdone
          · exact hnew hi
      · have hcover : cover totalCoalitions (ticks totalCoalitions done) idx = none := by
          refine if_pos ?_
          rw [Bool.or_eq_true, decide_eq_true_iff]
          rcases Nat.lt_or_ge idx totalCoalitions with hlt | hge
          · refine Or.inr ?_
            have hdone : idx ∈ done := by
              by_contra hnew
              exact hidx ⟨hlt, hnew⟩
            rw [getD_ticks hlt, decide_eq_true hdone]
          · exact Or.inl hge
        rw [hcover, if_neg fun h ↦ hidx (h.2 idx List.mem_cons_self)]
        rfl

/-- The check accepts just the partitions. -/
theorem verifyDistribution_iff (shares : List WorkloadShare) (totalCoalitions : Nat) :
    verifyDistribution shares totalCoalitions = true ↔ Partitions shares totalCoalitions := by
  have hstart : List.replicate totalCoalitions false = ticks totalCoalitions [] := by
    simp [ticks, List.map_const']
  unfold verifyDistribution Partitions
  rw [← foldlM_flatMap, hstart, foldlM_cover, List.nil_append]
  generalize shares.flatMap (·.coalitionIndices) = indices
  have hrange : indices.Perm (List.range totalCoalitions) ↔
      indices.Nodup ∧ ∀ i, i ∈ indices ↔ i < totalCoalitions := by
    constructor
    · intro h
      exact ⟨h.nodup_iff.mpr List.nodup_range, fun i ↦ h.mem_iff.trans List.mem_range⟩
    · rintro ⟨hnodup, h⟩
      exact (List.perm_ext_iff_of_nodup hnodup List.nodup_range).mpr fun i ↦
        (h i).trans List.mem_range.symm
  rw [hrange]
  split_ifs with h
  · simp only [ticks, List.all_map, List.all_eq_true, List.mem_range, Function.comp_apply, id,
      decide_eq_true_iff]
    exact ⟨fun hall ↦ ⟨h.1, fun i ↦ ⟨fun hi ↦ (h.2 i hi).1, hall i⟩⟩, fun hall i ↦ (hall.2 i).mpr⟩
  · refine iff_of_false id fun hall ↦ h ⟨hall.1, fun i hi ↦ ?_⟩
    exact ⟨(hall.2 i).mp hi, List.not_mem_nil⟩

end Verify

/-! ## Consecutive parts -/

section Parts

variable {agents : List CapabilityAgent} {quota : CapabilityAgent → Nat} {total k : Nat}
variable {slot : Workload × Nat}

/-- The part of one agent, or what is left of the total. -/
def assign (quota : CapabilityAgent → Nat) (total : Nat) (slot : Workload × Nat)
    (agent : CapabilityAgent) : Workload × Nat :=
  (slot.1.insert agent.id
    { agentId := agent.id
      coalitionIndices := List.range' slot.2 (min (slot.2 + quota agent) total - slot.2)
      shareSize := min (slot.2 + quota agent) total - slot.2 }, min (slot.2 + quota agent) total)

theorem foldl_assign_snd (h : slot.2 ≤ total) :
    (agents.foldl (assign quota total) slot).2 = min (slot.2 + (agents.map quota).sum) total := by
  induction agents generalizing slot with
  | nil => exact (Nat.min_eq_left h).symm
  | cons a agents ih =>
      rw [List.foldl_cons, ih (Nat.min_le_right _ _), List.map_cons, List.sum_cons]
      simp only [assign]
      omega

theorem mem_foldl_assign :
    k ∈ (agents.foldl (assign quota total) slot).1 ↔ k ∈ slot.1 ∨ k ∈ agents.map (·.id) := by
  induction agents generalizing slot with
  | nil => simp
  | cons a agents ih =>
      rw [List.foldl_cons, ih, assign, AList.mem_insert, List.map_cons, List.mem_cons]
      tauto

theorem lookup_foldl_assign (h : k ∉ agents.map (·.id)) :
    (agents.foldl (assign quota total) slot).1.lookup k = slot.1.lookup k := by
  induction agents generalizing slot with
  | nil => rfl
  | cons a agents ih =>
      rw [List.map_cons, List.mem_cons, not_or] at h
      rw [List.foldl_cons, ih h.2, assign, AList.lookup_insert_ne h.1]

/-- Agents with ids of their own have their parts, if these do not exceed the total. -/
theorem exists_share_foldl_assign (hids : (agents.map (·.id)).Nodup)
    (hle : slot.2 + (agents.map quota).sum ≤ total) {a : CapabilityAgent} (ha : a ∈ agents) :
    ∃ share, (agents.foldl (assign quota total) slot).1.lookup a.id = some share ∧
      share.shareSize = quota a ∧ share.coalitionIndices.length = quota a := by
  induction agents generalizing slot with
  | nil => cases ha
  | cons b agents ih =>
      obtain ⟨hnew, hids⟩ := List.nodup_cons.mp hids
      rw [List.map_cons, List.sum_cons, ← Nat.add_assoc] at hle
      have hend : min (slot.2 + quota b) total = slot.2 + quota b :=
        Nat.min_eq_left (Nat.le_trans (Nat.le_add_right _ _) hle)
      rw [List.foldl_cons]
      rcases List.mem_cons.mp ha with rfl | ha
      · rw [lookup_foldl_assign hnew]
        refine ⟨_, AList.lookup_insert _, ?_, ?_⟩
        · rw [hend, Nat.add_sub_cancel_left]
        · rw [List.length_range', hend, Nat.add_sub_cancel_left]
      · exact ih hids (by rwa [assign, hend]) ha

/-- Every agent that is followed by one with its id comes too late, or has no part. -/
def NoneLost (quota : CapabilityAgent → Nat) (total start : Nat)
    (agents : List CapabilityAgent) : Prop :=
  ∀ front a back, agents = front ++ a :: back → a.id ∈ back.map (·.id) →
    quota a = 0 ∨ total ≤ start + (front.map quota).sum

theorem noneLost_cons {a : CapabilityAgent} {start : Nat} :
    NoneLost quota total start (a :: agents) ↔
      (a.id ∈ agents.map (·.id) → quota a = 0 ∨ total ≤ start) ∧
        NoneLost quota total (start + quota a) agents := by
  constructor
  · intro h
    refine ⟨h [] a agents rfl, fun front b back hsplit hb ↦ ?_⟩
    have hrest := h (a :: front) b back (congrArg (a :: ·) hsplit) hb
    rwa [List.map_cons, List.sum_cons, ← Nat.add_assoc] at hrest
  · rintro ⟨hfirst, hrest⟩ front b back hsplit hb
    cases front with
    | nil =>
        obtain ⟨rfl, rfl⟩ := List.cons.inj hsplit
        exact hfirst hb
    | cons c front =>
        obtain ⟨rfl, htail⟩ := List.cons.inj hsplit
        rw [List.map_cons, List.sum_cons, ← Nat.add_assoc]
        exact hrest front b back htail hb

/-- From the end of the total on, nothing can be lost. -/
theorem noneLost_min {start : Nat} :
    NoneLost quota total (min start total) agents ↔ NoneLost quota total start agents := by
  refine forall₃_congr fun front a back ↦ ?_
  refine imp_congr_right fun _ ↦ imp_congr_right fun _ ↦ or_congr_right ?_
  omega

theorem le_assign (h : slot.2 ≤ total) (a : CapabilityAgent) :
    slot.2 ≤ (assign quota total slot a).2 := Nat.le_min.mpr ⟨Nat.le_add_right _ _, h⟩

/-- An agent's part is seen under its id. -/
theorem heldBy_assign (a b : CapabilityAgent) :
    heldBy WorkloadShare.coalitionIndices (assign quota total slot a).1 b.id =
      if a.id = b.id then List.range' slot.2 ((assign quota total slot a).2 - slot.2)
      else heldBy WorkloadShare.coalitionIndices slot.1 b.id := by
  split
  · rename_i heq
    rw [← heq]
    exact heldBy_insert
  · rename_i hne
    exact heldBy_insert_ne (Ne.symm hne)

theorem range'_foldl_assign (h : slot.2 ≤ total) (a : CapabilityAgent)
    (agents : List CapabilityAgent) :
    let next := assign quota total slot a
    let final := agents.foldl (assign quota total) next
    List.range' slot.2 (final.2 - slot.2) =
      List.range' slot.2 (next.2 - slot.2) ++ List.range' next.2 (final.2 - next.2) := by
  intro next final
  have hle : slot.2 ≤ next.2 := le_assign h a
  have hle' : next.2 ≤ final.2 := by
    have hnext : next.2 ≤ total := Nat.min_le_right _ _
    have hfinal : final.2 = min (next.2 + (agents.map quota).sum) total := foldl_assign_snd hnext
    omega
  have hsplit := @List.range'_append_1 slot.2 (next.2 - slot.2) (final.2 - next.2)
  rw [Nat.add_sub_cancel' hle] at hsplit
  rw [hsplit]
  congr 1
  omega

/-- What is held, and what has been lost with the shares that were replaced. -/
theorem exists_lost (agents : List CapabilityAgent) (slot : Workload × Nat) (h : slot.2 ≤ total) :
    ∃ lost, (held WorkloadShare.coalitionIndices (agents.foldl (assign quota total) slot).1 ++
        lost).Perm (held WorkloadShare.coalitionIndices slot.1 ++
          List.range' slot.2 ((agents.foldl (assign quota total) slot).2 - slot.2)) ∧
      (lost = [] ↔ (∀ a ∈ agents, heldBy WorkloadShare.coalitionIndices slot.1 a.id = []) ∧
        NoneLost quota total slot.2 agents) := by
  induction agents generalizing slot with
  | nil =>
      refine ⟨[], ?_, iff_of_true rfl ⟨List.forall_mem_nil _, ?_⟩⟩
      · rw [List.append_nil, List.foldl_nil, Nat.sub_self, List.range'_zero, List.append_nil]
      · exact fun front a back hsplit ↦ absurd hsplit.symm (List.append_ne_nil_of_right_ne_nil _
          (List.cons_ne_nil _ _))
  | cons a agents ih =>
      obtain ⟨lost, hperm, hlost⟩ := ih (assign quota total slot a) (Nat.min_le_right _ _)
      let old := heldBy WorkloadShare.coalitionIndices slot.1 a.id
      have hinsert : (held WorkloadShare.coalitionIndices (assign quota total slot a).1 ++
          old).Perm (_ ++ held WorkloadShare.coalitionIndices slot.1) := held_insert slot.1 a.id _
      refine ⟨lost ++ old, ?_, ?_⟩
      · rw [List.foldl_cons, range'_foldl_assign h a agents, ← List.append_assoc,
          ← List.append_assoc]
        exact append_perm_append hperm (hinsert.trans List.perm_append_comm)
      · -- the agents behind this one see its part under its id, and the old ones elsewhere
        have hpart : (assign quota total slot a).2 - slot.2 = 0 ↔ quota a = 0 ∨ total ≤ slot.2 := by
          simp only [assign]
          omega
        rw [List.append_eq_nil_iff, hlost, List.forall_mem_cons, noneLost_cons, ← hpart,
          ← @noneLost_min agents quota total (slot.2 + quota a)]
        simp only [heldBy_assign]
        constructor
        · rintro ⟨⟨hnone, hrest⟩, hold⟩
          refine ⟨⟨hold, fun b hb ↦ ?_⟩, fun hmem ↦ ?_, hrest⟩
          · have hb := hnone b hb
            split at hb
            · rename_i heq
              exact heq ▸ hold
            · exact hb
          · obtain ⟨b, hb, heq⟩ := List.mem_map.mp hmem
            have hb := hnone b hb
            rwa [if_pos heq.symm, List.range'_eq_nil_iff] at hb
        · rintro ⟨⟨hold, hnone⟩, hnopart, hrest⟩
          refine ⟨⟨fun b hb ↦ ?_, hrest⟩, hold⟩
          split
          · rename_i heq
            rw [hnopart (heq ▸ List.mem_map_of_mem hb), List.range'_zero]
          · exact hnone b hb

end Parts

/-! ## The rest -/

section Rest

variable {workload : Workload} {turns : List (Nat × CapabilityAgent)} {k : Nat}

/-- A share with more indices. -/
def WorkloadShare.extend (share : WorkloadShare) (indices : List Nat) : WorkloadShare :=
  { share with
    coalitionIndices := share.coalitionIndices ++ indices
    shareSize := share.shareSize + indices.length }

/-- One index after another for the agents whose turn it is. -/
def pushAll (workload : Workload) (turns : List (Nat × CapabilityAgent)) : Workload :=
  turns.foldl (fun workload turn ↦ pushIndex workload turn.2 turn.1) workload

theorem lookup_pushIndex (workload : Workload) (agent : CapabilityAgent) (idx k : Nat) :
    (pushIndex workload agent idx).lookup k =
      (workload.lookup k).map fun share ↦ if agent.id = k then share.extend [idx] else share := by
  unfold pushIndex
  by_cases hk : agent.id = k
  · subst hk
    simp only [if_true]
    cases hshare : workload.lookup agent.id with
    | none => exact hshare
    | some share => exact AList.lookup_insert _
  · simp only [if_neg hk, Option.map_id']
    cases workload.lookup agent.id with
    | none => rfl
    | some share => exact AList.lookup_insert_ne (Ne.symm hk)

/-- A share gets the indices of its agent's turns. -/
theorem lookup_pushAll : (pushAll workload turns).lookup k =
    (workload.lookup k).map fun share ↦
      share.extend ((turns.filter fun turn ↦ turn.2.id = k).map Prod.fst) := by
  induction turns generalizing workload with
  | nil =>
      simp [pushAll, WorkloadShare.extend]
  | cons turn turns ih =>
      rw [pushAll, List.foldl_cons]
      refine ih.trans ?_
      rw [lookup_pushIndex, Option.map_map, List.filter_cons]
      refine Option.map_congr fun share _ ↦ ?_
      rw [Function.comp_apply]
      by_cases hk : turn.2.id = k
      · simp only [hk, if_true, decide_true, List.map_cons, WorkloadShare.extend,
          List.append_assoc, List.singleton_append, List.length_cons, List.length_nil]
        congr 1
        omega
      · simp only [if_neg hk, decide_eq_false hk, Bool.false_eq_true, if_false]

/-- All indices of the rest are held, if all agents have shares. -/
theorem held_pushAll (h : ∀ turn ∈ turns, turn.2.id ∈ workload) :
    (held WorkloadShare.coalitionIndices (pushAll workload turns)).Perm
      (held WorkloadShare.coalitionIndices workload ++ turns.map Prod.fst) := by
  induction turns generalizing workload with
  | nil =>
      rw [List.map_nil, List.append_nil]
      exact List.Perm.refl _
  | cons turn turns ih =>
      obtain ⟨hturn, hturns⟩ := List.forall_mem_cons.mp h
      obtain ⟨share, hshare⟩ := Option.isSome_iff_exists.mp (AList.lookup_isSome.mpr hturn)
      have hmem : ∀ k, k ∈ workload → k ∈ pushIndex workload turn.2 turn.1 := fun k hk ↦ by
        rw [← AList.lookup_isSome, lookup_pushIndex, Option.isSome_map, AList.lookup_isSome]
        exact hk
      have hpush : (held WorkloadShare.coalitionIndices (pushIndex workload turn.2 turn.1)).Perm
          (held WorkloadShare.coalitionIndices workload ++ [turn.1]) := by
        unfold pushIndex
        rw [hshare]
        exact held_insert_concat hshare rfl
      refine (ih fun turn hturn ↦ hmem _ (hturns turn hturn)).trans ?_
      rw [List.map_cons, List.append_cons]
      exact hpush.append_right _

/-- The agent whose turn it is for an index at a place of the rest. -/
def turnOf {sorted : List CapabilityAgent} (h : 0 < sorted.length) (slot : Nat × Nat) :
    Nat × CapabilityAgent :=
  (slot.1, sorted.get ⟨slot.2 % sorted.length, Nat.mod_lt _ h⟩)

variable {sorted : List CapabilityAgent} {indices : List Nat}

/-- There is always an agent whose turn it is. -/
theorem assignRemaining_eq (h : 0 < sorted.length) (workload : Workload) (indices : List Nat) :
    assignRemaining sorted workload indices =
      some (pushAll workload (indices.zipIdx.map (turnOf h))) := by
  unfold assignRemaining
  generalize indices.zipIdx = slots
  induction slots generalizing workload with
  | nil => rfl
  | cons slot slots ih =>
      have hagent := List.getElem?_eq_getElem (l := sorted) (Nat.mod_lt slot.2 h)
      rw [List.foldlM_cons, hagent]
      exact ih _

/-- No agent has two turns, if there are no more indices than agents. -/
theorem length_filter_turns_le (h : 0 < sorted.length) (hids : (sorted.map (·.id)).Nodup)
    (hlen : indices.length ≤ sorted.length) (k : Nat) :
    ((indices.zipIdx.map (turnOf h)).filter fun turn ↦ turn.2.id = k).length ≤ 1 := by
  have hnodup : ((indices.zipIdx.map (turnOf h)).map (·.2.id)).Nodup := by
    rw [List.nodup_iff_pairwise_ne, List.pairwise_iff_getElem]
    intro i j hi hj hij heq
    simp only [List.length_map, List.length_zipIdx] at hi hj
    simp only [List.getElem_map, List.getElem_zipIdx, turnOf, List.get_eq_getElem,
      Nat.zero_add, Nat.mod_eq_of_lt (Nat.lt_of_lt_of_le hi hlen),
      Nat.mod_eq_of_lt (Nat.lt_of_lt_of_le hj hlen)] at heq
    have hlength : (sorted.map (·.id)).length = sorted.length := List.length_map _
    have hi' : i < (sorted.map (·.id)).length := by omega
    have hj' : j < (sorted.map (·.id)).length := by omega
    have hsame : (sorted.map (·.id))[i] = (sorted.map (·.id))[j] := by
      rw [List.getElem_map, List.getElem_map]
      exact heq
    exact Nat.ne_of_lt hij (hids.getElem_inj_iff.mp hsame)
  have hcount := List.nodup_iff_count_le_one.mp hnodup k
  rw [List.count_eq_countP, List.countP_map, List.countP_eq_length_filter] at hcount
  exact hcount

end Rest

/-! ## A distribution -/

section Distribution

variable {F : Type} [NatCast F] [Zero F] [Add F] [Mul F] [Div F] {floor : F → Nat}
variable {agents : List CapabilityAgent} {totalCoalitions : Nat}

/-- The part of an agent, as it is rounded. -/
def partOf (floor : F → Nat) (agents : List CapabilityAgent) (totalCoalitions : Nat)
    (a : CapabilityAgent) : Nat :=
  let totalSpeed : F := (agents.map fun a ↦ (a.trust.toNat : F)).foldl (· + ·) 0
  floor ((totalCoalitions : F) * ((a.trust.toNat : F) / totalSpeed))

/-- The distribution has consecutive parts, and the rest after them in turns. -/
theorem distributeWorkload_eq (hne : agents ≠ []) (htotal : 0 < totalCoalitions) :
    let parts := agents.foldl
      (assign (partOf floor agents totalCoalitions) totalCoalitions) (∅, 0)
    ∃ turns, distributeWorkload floor agents totalCoalitions = some ⟨pushAll parts.1 turns⟩ ∧
      turns.map Prod.fst = List.range' parts.2 (totalCoalitions - parts.2) ∧
      (∀ turn ∈ turns, turn.2 ∈ agents) ∧
      ((agents.map (·.id)).Nodup → totalCoalitions - parts.2 ≤ agents.length →
        ∀ k, (turns.filter fun turn ↦ turn.2.id = k).length ≤ 1) := by
  intro parts
  let sorted := agents.mergeSort fun a b ↦ decide (b.trust ≤ a.trust)
  have hperm : sorted.Perm agents := List.mergeSort_perm _ _
  have hpos : 0 < sorted.length := hperm.length_eq ▸ List.length_pos_iff.mpr hne
  have hguard : ¬(agents.isEmpty || totalCoalitions == 0) = true := by
    simpa [hne] using Nat.ne_of_gt htotal
  refine ⟨(List.range' parts.2 (totalCoalitions - parts.2)).zipIdx.map (turnOf hpos),
    ?_, ?_, ?_, ?_⟩
  · unfold distributeWorkload
    rw [if_neg hguard]
    change (if parts.2 < totalCoalitions then (assignRemaining sorted parts.1
      (List.range' parts.2 (totalCoalitions - parts.2))).bind fun workload ↦
        some (DCVCDistributor.mk workload) else some (DCVCDistributor.mk parts.1)) = _
    split
    · rw [assignRemaining_eq hpos]
      rfl
    · rename_i hnone
      have hzero : totalCoalitions - parts.2 = 0 := Nat.sub_eq_zero_of_le (Nat.not_lt.mp hnone)
      rw [hzero]
      rfl
  · rw [List.map_map]
    exact List.zipIdx_map_fst _ _
  · intro turn hturn
    obtain ⟨slot, -, rfl⟩ := List.mem_map.mp hturn
    exact hperm.subset (List.get_mem _ _)
  · intro hids hlen k
    refine length_filter_turns_le hpos ((hperm.map _).nodup_iff.mpr hids) ?_ k
    rw [List.length_range', hperm.length_eq]
    exact hlen

theorem distributeWorkload_zero (agents : List CapabilityAgent) :
    distributeWorkload floor agents 0 = some ⟨∅⟩ := by
  rw [distributeWorkload, beq_self_eq_true, Bool.or_true, if_pos rfl]

/-- It is the agents that have shares. -/
theorem mem_distribution (hne : agents ≠ []) (htotal : 0 < totalCoalitions)
    {d : DCVCDistributor} (hd : distributeWorkload floor agents totalCoalitions = some d)
    {k : Nat} : k ∈ d.workloadDistribution ↔ k ∈ agents.map (·.id) := by
  obtain ⟨turns, hd', -⟩ := @distributeWorkload_eq F _ _ _ _ _ floor _ _ hne htotal
  rw [hd, Option.some_inj] at hd'
  subst hd'
  rw [← AList.lookup_isSome, lookup_pushAll, Option.isSome_map, AList.lookup_isSome,
    mem_foldl_assign]
  exact or_iff_right (AList.notMem_empty k)

theorem flatMap_shares (workload : Workload) :
    (DCVCDistributor.shares ⟨workload⟩).flatMap (·.coalitionIndices) =
      held WorkloadShare.coalitionIndices workload := by
  rw [DCVCDistributor.shares, List.flatMap_map]
  rfl

/-- The indices that are in the shares, and those that have been lost. -/
theorem exists_distribution (floor : F → Nat) (hne : agents ≠ []) (totalCoalitions : Nat) :
    ∃ d lost, distributeWorkload floor agents totalCoalitions = some d ∧
      (d.shares.flatMap (·.coalitionIndices) ++ lost).Perm (List.range totalCoalitions) ∧
      (lost = [] ↔ NoneLost (partOf floor agents totalCoalitions) totalCoalitions 0 agents) := by
  rcases Nat.eq_zero_or_pos totalCoalitions with rfl | htotal
  · exact ⟨⟨∅⟩, [], distributeWorkload_zero agents, List.Perm.refl _,
      iff_of_true rfl fun front a back _ _ ↦ Or.inr (Nat.zero_le _)⟩
  · obtain ⟨turns, hd, hturns, hmem, -⟩ := @distributeWorkload_eq F _ _ _ _ _ floor _ _ hne htotal
    obtain ⟨lost, hparts, hlost⟩ := @exists_lost (partOf floor agents totalCoalitions)
      totalCoalitions agents (∅, 0) (Nat.zero_le _)
    let parts := agents.foldl
      (assign (partOf floor agents totalCoalitions) totalCoalitions) (∅, 0)
    have hend : parts.2 ≤ totalCoalitions :=
      (foldl_assign_snd (Nat.zero_le _)).trans_le (Nat.min_le_right _ _)
    have hheld := @held_pushAll parts.1 turns fun turn hturn ↦
      mem_foldl_assign.mpr (Or.inr (List.mem_map_of_mem (hmem turn hturn)))
    have hrange : List.range totalCoalitions = List.range' 0 parts.2 ++
        List.range' parts.2 (totalCoalitions - parts.2) := by
      rw [List.range_eq_range']
      nth_rewrite 1 [← Nat.add_sub_cancel' hend]
      rw [← List.range'_append_1, Nat.zero_add]
    refine ⟨_, lost, hd, ?_, hlost.trans (and_iff_right fun a _ ↦ rfl)⟩
    rw [flatMap_shares, hrange, ← hturns]
    exact append_perm_append hheld hparts

/-- Nothing is lost where all ids differ. -/
theorem noneLost_of_nodup {quota : CapabilityAgent → Nat} {total start : Nat}
    (hids : (agents.map (·.id)).Nodup) : NoneLost quota total start agents := by
  rintro front a back rfl hmem
  rw [List.map_append, List.map_cons] at hids
  exact absurd hmem (List.nodup_cons.mp (List.nodup_append.mp hids).2.1).1

end Distribution

/-! ## Exact parts -/

section Exact

variable {K : Type} [Field K] [LinearOrder K] [IsStrictOrderedRing K] [FloorSemiring K]
variable {agents : List CapabilityAgent} {totalCoalitions : Nat}

theorem partOf_floor (agents : List CapabilityAgent) (totalCoalitions : Nat)
    (a : CapabilityAgent) : partOf (Nat.floor : K → Nat) agents totalCoalitions a =
      totalCoalitions * a.trust.toNat / trusts agents := by
  have hspeed : (agents.map fun a ↦ (a.trust.toNat : K)).foldl (· + ·) 0 =
      (trusts agents : K) := List.sum_eq_foldl.symm.trans trustSum_eq
  rw [partOf, hspeed, ← mul_div_assoc, ← Nat.cast_mul, Nat.floor_div_eq_div]

theorem map_partOf_floor (agents : List CapabilityAgent) (totalCoalitions : Nat) :
    agents.map (partOf (Nat.floor : K → Nat) agents totalCoalitions) =
      agents.map fun a ↦ totalCoalitions * a.trust.toNat / trusts agents :=
  List.map_congr_left fun a _ ↦ partOf_floor agents totalCoalitions a

theorem sum_partOf_floor_le (agents : List CapabilityAgent) (totalCoalitions : Nat) :
    (agents.map (partOf (Nat.floor : K → Nat) agents totalCoalitions)).sum ≤ totalCoalitions := by
  rw [map_partOf_floor]
  exact sum_div_le totalCoalitions (·.trust.toNat) agents

end Exact

section Partitions

variable (K : Type) [Field K] [LinearOrder K] [IsStrictOrderedRing K] [FloorSemiring K]

/-- A distribution is a partition that the check accepts if and only if nothing is lost. -/
theorem exists_partition_iff {F : Type} [NatCast F] [Zero F] [Add F] [Mul F] [Div F]
    (floor : F → Nat) {agents : List CapabilityAgent} (hne : agents ≠ [])
    (totalCoalitions : Nat) :
    ∃ d, distributeWorkload floor agents totalCoalitions = some d ∧
      ((Partitions d.shares totalCoalitions ∧
          ∀ shares, shares.Perm d.shares → verifyDistribution shares totalCoalitions = true) ↔
        NoneLost (partOf floor agents totalCoalitions) totalCoalitions 0 agents) := by
  obtain ⟨d, lost, hd, hperm, hlost⟩ := exists_distribution floor hne totalCoalitions
  refine ⟨d, hd, ?_⟩
  rw [← hlost]
  constructor
  · rintro ⟨hpartitions, -⟩
    have hlength := hperm.length_eq
    rw [List.length_append, hpartitions.length_eq] at hlength
    exact List.length_eq_zero_iff.mp (by omega)
  · rintro rfl
    rw [List.append_nil] at hperm
    exact ⟨hperm, fun shares hshares ↦
      (verifyDistribution_iff shares _).mpr ((hshares.flatMap_right _).trans hperm)⟩

end Partitions

section Proportional

variable {K : Type} [Field K] [LinearOrder K] [IsStrictOrderedRing K] [FloorSemiring K]
variable {agents : List CapabilityAgent} {totalCoalitions : Nat}

theorem rest_lt (hpos : 0 < trusts agents) (totalCoalitions : Nat) :
    totalCoalitions -
      (agents.map fun a ↦ totalCoalitions * a.trust.toNat / trusts agents).sum < agents.length :=
  sub_sum_div_lt totalCoalitions (fun a : CapabilityAgent ↦ a.trust.toNat) agents hpos

/-- Where all ids differ, an agent's share is its part, and one more index if it has a turn. -/
theorem exists_proportional_share (hids : (agents.map (·.id)).Nodup) (hpos : 0 < trusts agents)
    (htotal : 0 < totalCoalitions) {d : DCVCDistributor}
    (hd : distributeWorkload (Nat.floor : K → Nat) agents totalCoalitions = some d)
    {a : CapabilityAgent} (ha : a ∈ agents) :
    ∃ share extra, d.getAgentShare a.id = some share ∧ extra ≤ 1 ∧
      share.shareSize = totalCoalitions * a.trust.toNat / trusts agents + extra ∧
      share.coalitionIndices.length = share.shareSize := by
  have hle := @sum_partOf_floor_le K _ _ _ _ agents totalCoalitions
  obtain ⟨turns, hd', -, -, hturns⟩ :=
    @distributeWorkload_eq K _ _ _ _ _ Nat.floor _ _ (List.ne_nil_of_mem ha) htotal
  rw [hd, Option.some_inj] at hd'
  subst hd'
  obtain ⟨share, hshare, hsize, hindices⟩ := @exists_share_foldl_assign agents
    (partOf (Nat.floor : K → Nat) agents totalCoalitions) totalCoalitions (∅, 0) hids
    (by rwa [Nat.zero_add]) a ha
  have hrest : totalCoalitions - (agents.foldl (assign
      (partOf (Nat.floor : K → Nat) agents totalCoalitions) totalCoalitions) (∅, 0)).2 ≤
        agents.length := by
    rw [foldl_assign_snd (Nat.zero_le _), Nat.zero_add, Nat.min_eq_left hle, map_partOf_floor]
    exact (rest_lt hpos totalCoalitions).le
  refine ⟨_, _, (lookup_pushAll).trans (congrArg _ hshare), hturns hids hrest a.id, ?_, ?_⟩
  · dsimp only [WorkloadShare.extend]
    rw [← @partOf_floor K, ← hsize, List.length_map]
  · dsimp only [WorkloadShare.extend]
    rw [List.length_append, hindices, ← hsize]

/-- An agent's share is its part of the total, rounded down, or one index more; it is as large
as it says; the shares are a partition; and there is less left after the parts than there are
agents. -/
theorem shares_are_proportional (K : Type) [Field K] [LinearOrder K] [IsStrictOrderedRing K]
    [FloorSemiring K] {agents : List CapabilityAgent} (hids : (agents.map (·.id)).Nodup)
    (hpos : 0 < trusts agents) (totalCoalitions : Nat) :
    ∃ d, distributeWorkload (Nat.floor : K → Nat) agents totalCoalitions = some d ∧
      (∀ a ∈ agents,
        (d.shareSizeOf a.id = ⌊(totalCoalitions : K) * a.trust.toNat / trusts agents⌋₊ ∨
          d.shareSizeOf a.id = ⌊(totalCoalitions : K) * a.trust.toNat / trusts agents⌋₊ + 1) ∧
        d.shareSizeOf a.id = (d.indicesOf a.id).length ∧
        (0 < totalCoalitions → (d.getAgentShare a.id).isSome)) ∧
      (agents.flatMap fun a ↦ d.indicesOf a.id).Perm (List.range totalCoalitions) ∧
      totalCoalitions - (agents.map fun a ↦
        ⌊(totalCoalitions : K) * a.trust.toNat / trusts agents⌋₊).sum < agents.length := by
  have hfloor : ∀ a : CapabilityAgent,
      ⌊(totalCoalitions : K) * a.trust.toNat / trusts agents⌋₊ =
        totalCoalitions * a.trust.toNat / trusts agents := fun a ↦ by
    rw [← Nat.cast_mul, Nat.floor_div_eq_div]
  simp only [hfloor]
  have hrest := rest_lt hpos totalCoalitions
  have hne : agents ≠ [] := List.length_pos_iff.mp (Nat.zero_lt_of_lt hrest)
  obtain ⟨d, hd, hpartition⟩ := exists_partition_iff (Nat.floor : K → Nat) hne totalCoalitions
  refine ⟨d, hd, ?_, ?_, hrest⟩
  · intro a ha
    rcases Nat.eq_zero_or_pos totalCoalitions with rfl | htotal
    · rw [distributeWorkload_zero, Option.some_inj] at hd
      subst hd
      refine ⟨Or.inl ?_, rfl, fun h ↦ absurd h (Nat.lt_irrefl 0)⟩
      rw [Nat.zero_mul, Nat.zero_div]
      rfl
    · obtain ⟨share, extra, hshare, hextra, hsize, hlength⟩ :=
        exists_proportional_share hids hpos htotal hd ha
      rw [DCVCDistributor.shareSizeOf, DCVCDistributor.indicesOf, hshare, Option.elim_some,
        Option.elim_some, hlength, hsize]
      refine ⟨?_, rfl, fun _ ↦ rfl⟩
      rcases Nat.le_one_iff_eq_zero_or_eq_one.mp hextra with rfl | rfl
      · exact Or.inl rfl
      · exact Or.inr rfl
  · rcases Nat.eq_zero_or_pos totalCoalitions with rfl | htotal
    · rw [distributeWorkload_zero, Option.some_inj] at hd
      subst hd
      have hnone : (agents.flatMap fun a ↦ (DCVCDistributor.mk ∅).indicesOf a.id) = [] :=
        List.flatMap_eq_nil_iff.mpr fun a _ ↦ rfl
      rw [hnone]
      exact List.Perm.refl _
    · have hperm := (hpartition.mpr (noneLost_of_nodup hids)).1
      rw [Partitions, flatMap_shares, held_eq_flatMap_keys] at hperm
      have hkeys : d.workloadDistribution.keys.Perm (agents.map (·.id)) :=
        (List.perm_ext_iff_of_nodup (AList.keys_nodup _) hids).mpr fun k ↦
          mem_distribution hne htotal hd
      have hagents := (hkeys.flatMap_right _).symm.trans hperm
      rwa [List.flatMap_map] at hagents

end Proportional

/-- Two agents share seven indices, of which one is left after the parts. -/
theorem two_agents_share_in_proportion :
    ∃ d, distributeWorkload (Nat.floor : Rat → Nat) [⟨1, 0, 90⟩, ⟨2, 0, 60⟩] 7 = some d ∧
      (d.shareSizeOf 1 = ⌊((7 : Nat) : Rat) * (90 : Nat) / (150 : Nat)⌋₊ ∨
        d.shareSizeOf 1 = ⌊((7 : Nat) : Rat) * (90 : Nat) / (150 : Nat)⌋₊ + 1) ∧
      (d.indicesOf 1 ++ (d.indicesOf 2 ++ [])).Perm (List.range 7) := by
  obtain ⟨d, hd, hshares, hperm, -⟩ := @shares_are_proportional Rat _ _ _ _
    [⟨1, 0, 90⟩, ⟨2, 0, 60⟩] (by decide) (by decide) 7
  exact ⟨d, hd, (hshares ⟨1, 0, 90⟩ List.mem_cons_self).1, hperm⟩

end Koalisi.Algorithms
