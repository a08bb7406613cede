import Mathlib.Data.List.Basic
import Koalisi.Decision.Magnitude

/-!
# Who counts in a decision

Both sides of a decision are masks of the agents that count: those that hold something of
the task, each id once.  Adding an agent at the end adds a mask at the end, or nothing;
taking an agent out takes one mask out, or nothing.
-/

namespace Koalisi.Decision

open Koalisi.Harness (CapabilityAgent)

/-- The agents that count, after some were seen. -/
def relevantAgents (required : UInt32) (seen : List Nat) :
    List CapabilityAgent → List CapabilityAgent
  | [] => []
  | a :: agents =>
      if a.capabilities &&& required ≠ 0 ∧ a.id ∉ seen then
        a :: relevantAgents required (a.id :: seen) agents
      else relevantAgents required seen agents

variable {required : UInt32} {seen : List Nat} {agents coalition : List CapabilityAgent}
  {a agent : CapabilityAgent}

theorem relevantMasks_go :
    relevantMasks.go required seen agents =
      (relevantAgents required seen agents).map (·.capabilities) := by
  induction agents generalizing seen with
  | nil => rfl
  | cons a agents ih =>
      rw [relevantMasks.go, relevantAgents]
      split
      · rw [ih, List.map_cons]
      · exact ih

theorem relevantMasks_eq :
    relevantMasks agents required = (relevantAgents required [] agents).map (·.capabilities) :=
  relevantMasks_go

/-- An agent that counts holds something of the task, and was not seen. -/
theorem of_mem_relevantAgents (h : a ∈ relevantAgents required seen agents) :
    a ∈ agents ∧ a.capabilities &&& required ≠ 0 ∧ a.id ∉ seen := by
  induction agents generalizing seen with
  | nil => cases h
  | cons b agents ih =>
      rw [relevantAgents] at h
      split at h
      · next hb =>
          rcases List.mem_cons.mp h with rfl | h
          · exact ⟨List.mem_cons_self, hb⟩
          · obtain ⟨hmem, hrel, hseen⟩ := ih h
            exact ⟨List.mem_cons_of_mem b hmem, hrel, fun hin ↦ hseen (List.mem_cons_of_mem _ hin)⟩
      · obtain ⟨hmem, h⟩ := ih h
        exact ⟨List.mem_cons_of_mem b hmem, h⟩

/-- Where ids are different, everyone that holds something of the task counts. -/
theorem mem_relevantAgents (hids : (agents.map (·.id)).Nodup)
    (hseen : ∀ a ∈ agents, a.id ∉ seen) :
    a ∈ relevantAgents required seen agents ↔ a ∈ agents ∧ a.capabilities &&& required ≠ 0 := by
  refine ⟨fun h ↦ ⟨(of_mem_relevantAgents h).1, (of_mem_relevantAgents h).2.1⟩, ?_⟩
  rintro ⟨hmem, hrel⟩
  induction agents generalizing seen with
  | nil => cases hmem
  | cons b agents ih =>
      rw [List.map_cons, List.nodup_cons] at hids
      have hrest : ∀ a ∈ agents, a.id ∉ b.id :: seen := by
        intro a ha hin
        rcases List.mem_cons.mp hin with heq | hin
        · exact hids.1 (heq ▸ List.mem_map_of_mem ha)
        · exact hseen a (List.mem_cons_of_mem b ha) hin
      rw [relevantAgents]
      rcases List.mem_cons.mp hmem with rfl | hmem
      · rw [if_pos ⟨hrel, hseen a List.mem_cons_self⟩]
        exact List.mem_cons_self
      · split
        · exact List.mem_cons_of_mem b (ih hids.2 hrest hmem)
        · exact ih hids.2 (fun a ha ↦ hseen a (List.mem_cons_of_mem b ha)) hmem

/-- Those that count have different ids. -/
theorem nodup_relevantAgents : ((relevantAgents required seen agents).map (·.id)).Nodup := by
  induction agents generalizing seen with
  | nil => exact List.nodup_nil
  | cons a agents ih =>
      rw [relevantAgents]
      split
      · rw [List.map_cons, List.nodup_cons]
        refine ⟨fun h ↦ ?_, ih⟩
        obtain ⟨b, hb, hid⟩ := List.mem_map.mp h
        exact (of_mem_relevantAgents hb).2.2 (hid ▸ List.mem_cons_self)
      · exact ih

/-- An id counts when some agent of that id holds something of the task. -/
theorem mem_ids_relevantAgents {i : Nat} :
    i ∈ (relevantAgents required seen agents).map (·.id) ↔
      i ∉ seen ∧ ∃ a ∈ agents, a.id = i ∧ a.capabilities &&& required ≠ 0 := by
  induction agents generalizing seen with
  | nil => exact iff_of_false List.not_mem_nil fun ⟨_, _, h, _⟩ ↦ List.not_mem_nil h
  | cons b agents ih =>
      rw [relevantAgents]
      split
      · next hb =>
          rw [List.map_cons, List.mem_cons, ih, List.mem_cons, not_or]
          constructor
          · rintro (rfl | ⟨⟨-, hseen⟩, a, ha, h⟩)
            · exact ⟨hb.2, b, List.mem_cons_self, rfl, hb.1⟩
            · exact ⟨hseen, a, List.mem_cons_of_mem b ha, h⟩
          · rintro ⟨hseen, a, ha, hid, hrel⟩
            by_cases hi : i = b.id
            · exact Or.inl hi
            · rcases List.mem_cons.mp ha with rfl | ha
              · exact absurd hid.symm hi
              · exact Or.inr ⟨⟨hi, hseen⟩, a, ha, hid, hrel⟩
      · next hb =>
          rw [ih]
          refine and_congr_right fun hseen ↦ ?_
          constructor
          · rintro ⟨a, ha, h⟩
            exact ⟨a, List.mem_cons_of_mem b ha, h⟩
          · rintro ⟨a, ha, hid, hrel⟩
            rcases List.mem_cons.mp ha with rfl | ha
            · exact absurd ⟨hrel, hid ▸ hseen⟩ hb
            · exact ⟨a, ha, hid, hrel⟩

/-- Where agents of one id hold the same, the order of the agents does not matter. -/
theorem relevantMasks_perm {agents' : List CapabilityAgent} (hperm : agents.Perm agents')
    (hnames : ∀ a ∈ agents, ∀ b ∈ agents, a.id = b.id → a.capabilities = b.capabilities) :
    (relevantMasks agents required).Perm (relevantMasks agents' required) := by
  -- a mask is read off the id
  obtain ⟨mask, hmask⟩ : ∃ mask : Nat → UInt32, ∀ a ∈ agents, a.capabilities = mask a.id := by
    refine ⟨fun i ↦ ((agents.find? fun a ↦ a.id = i).map (·.capabilities)).getD 0, ?_⟩
    intro a ha
    dsimp only
    cases hfind : agents.find? fun b ↦ b.id = a.id with
    | none =>
        exact absurd (decide_eq_true rfl) (List.find?_eq_none.mp hfind a ha)
    | some b =>
        have hid : b.id = a.id := by simpa using List.find?_some hfind
        exact hnames a ha b (List.mem_of_find?_eq_some hfind) hid.symm
  have hread : ∀ {l : List CapabilityAgent}, (∀ a ∈ l, a ∈ agents) →
      relevantMasks l required = ((relevantAgents required [] l).map (·.id)).map mask := by
    intro l hl
    rw [relevantMasks_eq, List.map_map]
    exact List.map_congr_left fun a ha ↦ hmask a (hl a (of_mem_relevantAgents ha).1)
  rw [hread fun _ ↦ id, hread fun _ ↦ hperm.mem_iff.mpr]
  refine List.Perm.map mask ?_
  rw [List.perm_ext_iff_of_nodup nodup_relevantAgents nodup_relevantAgents]
  intro i
  simp only [mem_ids_relevantAgents, hperm.mem_iff]

/-- One more agent at the end counts, or nothing changes. -/
theorem relevantAgents_concat :
    relevantAgents required seen (agents ++ [agent]) =
      if agent.capabilities &&& required ≠ 0 ∧ agent.id ∉ seen ∧
          agent.id ∉ (relevantAgents required seen agents).map (·.id) then
        relevantAgents required seen agents ++ [agent]
      else relevantAgents required seen agents := by
  induction agents generalizing seen with
  | nil =>
      rw [List.nil_append, relevantAgents, relevantAgents]
      simp only [List.map_nil, List.not_mem_nil, not_false_eq_true, and_true, List.nil_append]
      rfl
  | cons a agents ih =>
      rw [List.cons_append, relevantAgents, relevantAgents]
      split
      · rw [ih]
        simp only [List.mem_cons, List.map_cons, not_or]
        split
        · next h => rw [if_pos (by tauto), List.cons_append]
        · next h => rw [if_neg (by tauto)]
      · exact ih

/-- Taking out everybody of some id leaves the others that count. -/
theorem relevantAgents_filter {x : Nat} {seen' : List Nat}
    (h : ∀ i, i ≠ x → (i ∈ seen ↔ i ∈ seen')) :
    relevantAgents required seen (agents.filter fun a ↦ a.id ≠ x) =
      (relevantAgents required seen' agents).filter fun a ↦ a.id ≠ x := by
  induction agents generalizing seen seen' with
  | nil => rfl
  | cons a agents ih =>
      by_cases ha : a.id = x
      · rw [List.filter_cons_of_neg (by simpa using ha), relevantAgents]
        split
        · rw [List.filter_cons_of_neg (by simpa using ha)]
          refine ih fun i hi ↦ ?_
          rw [List.mem_cons, h i hi]
          exact (or_iff_right (ha ▸ hi)).symm
        · exact ih h
      · rw [List.filter_cons_of_pos (by simpa using ha), relevantAgents, relevantAgents]
        simp only [h a.id ha]
        split
        · rw [List.filter_cons_of_pos (by simpa using ha)]
          refine congrArg _ (ih fun i hi ↦ ?_)
          rw [List.mem_cons, List.mem_cons, h i hi]
        · exact ih h

/-- In a list with different ids, an id can be taken out at one place, or it is not there. -/
theorem filter_id_ne {x : Nat} (h : (agents.map (·.id)).Nodup) :
    (agents.filter (fun a ↦ a.id ≠ x) = agents ∧ ∀ a ∈ agents, a.id ≠ x) ∨
      ∃ front a back, agents = front ++ a :: back ∧ a.id = x ∧
        agents.filter (fun a ↦ a.id ≠ x) = front ++ back := by
  by_cases hx : ∃ a ∈ agents, a.id = x
  · obtain ⟨a, ha, rfl⟩ := hx
    obtain ⟨front, back, rfl⟩ := List.append_of_mem ha
    rw [List.map_append, List.map_cons, List.nodup_append] at h
    obtain ⟨-, hback, hdisjoint⟩ := h
    refine .inr ⟨front, a, back, rfl, rfl, ?_⟩
    rw [List.filter_append, List.filter_cons_of_neg (by simp)]
    congr 1
    · refine List.filter_eq_self.mpr fun b hb ↦ ?_
      exact decide_eq_true (hdisjoint _ (List.mem_map_of_mem hb) _ List.mem_cons_self)
    · refine List.filter_eq_self.mpr fun b hb ↦ ?_
      refine decide_eq_true fun hid ↦ (List.nodup_cons.mp hback).1 ?_
      exact hid ▸ List.mem_map_of_mem hb
  · have hall : ∀ a ∈ agents, a.id ≠ x := fun a ha hid ↦ hx ⟨a, ha, hid⟩
    exact .inl ⟨List.filter_eq_self.mpr fun a ha ↦ decide_eq_true (hall a ha), hall⟩

/-- Taking the newcomer out again leaves the coalition as it was. -/
theorem filter_concat (hx : agent.id ∉ coalition.map (·.id)) :
    (coalition ++ [agent]).filter (fun a ↦ a.id ≠ agent.id) = coalition := by
  rw [List.filter_append, List.filter_cons_of_neg (by simp), List.filter_nil, List.append_nil]
  refine List.filter_eq_self.mpr fun a ha ↦ decide_eq_true fun hid ↦ hx ?_
  exact hid ▸ List.mem_map_of_mem ha

/-- A candidate that counts comes at the end. -/
theorem joinMasks_cases :
    (joinMasks agent coalition required).1 = (joinMasks agent coalition required).2 ∨
      (joinMasks agent coalition required).1 =
        (joinMasks agent coalition required).2 ++ [agent.capabilities] := by
  rw [joinMasks, relevantMasks_eq, relevantMasks_eq, relevantAgents_concat]
  split
  · right
    rw [List.map_append, List.map_singleton]
  · exact .inl rfl

/-- Where the leaver's id means the leaver's mask, this is the mask that goes. -/
theorem leaveMasks_cases
    (hid : ∀ a ∈ coalition, a.id = agent.id → a.capabilities = agent.capabilities) :
    (leaveMasks agent coalition required).1 = (leaveMasks agent coalition required).2 ∨
      ∃ front back, (leaveMasks agent coalition required).1 = front ++ agent.capabilities :: back ∧
        (leaveMasks agent coalition required).2 = front ++ back := by
  rw [leaveMasks, relevantMasks_eq, relevantMasks_eq, relevantAgents_filter (fun _ _ ↦ Iff.rfl)]
  rcases filter_id_ne nodup_relevantAgents with ⟨heq, -⟩ | ⟨front, a, back, heq, ha, hfilter⟩
  · left
    rw [heq]
  · right
    have hmem : a ∈ relevantAgents required [] coalition :=
      heq ▸ List.mem_append_right _ List.mem_cons_self
    refine ⟨front.map (·.capabilities), back.map (·.capabilities), ?_, ?_⟩
    · rw [heq, List.map_append, List.map_cons, hid a (of_mem_relevantAgents hmem).1 ha]
    · rw [hfilter, List.map_append]

end Koalisi.Decision
