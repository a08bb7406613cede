import Koalisi.Decision.GroupPolicy
import Koalisi.Lib.Ensures
import Koalisi.Lib.Sums

/-!
# Tasks and outcomes of the group arm

A task that is put in force has a roster of roles within the configured number, and asks every
world model behind its roster to learn once.  An outcome of the task in force lets them learn;
how many of them did is what the observation returns.
-/

namespace Koalisi.Decision

open Koalisi.Lib
open Koalisi.Harness (Role TaskStart)

variable {F : Type} [FloatingPoint F]

/-! ## World models -/

namespace Models

variable {aif : GroupAif F} {models : Models aif}

/-- The topology that the world models are of. -/
def topology : Models aif → WorldModelTopology
  | roleSpecialised _ => .roleSpecialised
  | shared _ => .shared

omit [FloatingPoint F] in
@[simp] theorem topology_set {index : Nat} {model : Inner aif.toAif} :
    (models.set index model).topology = models.topology := by
  cases models with
  | roleSpecialised models => rfl
  | shared model => rfl

omit [FloatingPoint F] in
@[simp] theorem len_set {index : Nat} {model : Inner aif.toAif} :
    (models.set index model).len = models.len := by
  cases models with
  | roleSpecialised models => exact List.length_set
  | shared model => rfl

omit [FloatingPoint F] in
theorem length_labels {nRoles : Nat}
    (h : models.topology = .roleSpecialised → models.len = nRoles) :
    (models.labels nRoles).length = models.len := by
  cases models with
  | roleSpecialised models =>
      rw [labels, List.length_map, List.length_range]
      exact (h rfl).symm
  | shared model => rfl

end Models

/-- How many world models there are. -/
def WorldModelTopology.count (nRoles : Nat) : WorldModelTopology → Nat
  | roleSpecialised => nRoles
  | shared => 1

/-- How many world models a task with so many roles asks to learn. -/
def WorldModelTopology.asked (size : Nat) : WorldModelTopology → Nat
  | roleSpecialised => size
  | shared => 1

/-- How often the world models are asked to learn by tasks with so many roles. -/
def WorldModelTopology.askedInAll (sizes : List Nat) : WorldModelTopology → Nat
  | roleSpecialised => sizes.sum
  | shared => sizes.length

theorem WorldModelTopology.askedInAll_eq {topology : WorldModelTopology} {sizes : List Nat} :
    topology.askedInAll sizes = (sizes.map topology.asked).sum := by
  cases topology with
  | roleSpecialised => exact congrArg List.sum (List.map_id sizes).symm
  | shared =>
      have hones : (sizes.map fun _ ↦ 1).sum = sizes.length := by
        rw [List.map_const', List.sum_replicate_nat, Nat.mul_one]
      exact hones.symm

namespace GroupAifPolicy

variable {aif : GroupAif F} {policy : GroupAifPolicy aif} {s t : GroupState aif}

/-- The lists of the state have an entry for each world model. -/
structure Shaped (policy : GroupAifPolicy aif) (s : GroupState aif) : Prop where
  topology : s.models.topology = policy.config.topology
  len : s.models.len = policy.config.topology.count policy.config.nRoles
  updates : s.updates.length = s.models.len
  expected : s.expected.length = s.models.len

/-! ## Beginning a task -/

theorem length_rosterOf_le (required : List UInt32) :
    (policy.rosterOf required).length ≤ policy.config.nRoles := by
  rw [rosterOf, List.length_map]
  exact (List.length_filter_le _ _).trans_eq List.length_range

theorem toNat_lt_of_mem_rosterOf {required : List UInt32} {r : Role}
    (h : r ∈ policy.rosterOf required) : r.toNat < policy.config.nRoles := by
  obtain ⟨i, hi, rfl⟩ := List.mem_map.mp h
  have hlt : i < policy.config.nRoles := List.mem_range.mp (List.mem_filter.mp hi).1
  rwa [UInt8.toNat_ofNat_of_lt' (hlt.trans policy.nRoles_lt)]

/-- The roster of a task that is accepted. -/
theorem roster_of_plan {demand : CountedDemand} {task : TaskState}
    (h : policy.plan demand = .ok task) : ∃ required, task.roster = policy.rosterOf required := by
  rw [plan] at h
  dsimp only at h
  generalize demand.distinct.foldlM (policy.enterStep demand) _ = slots at h
  cases slots with
  | error e => cases h
  | ok slots =>
      change (if (policy.rosterOf slots.1).isEmpty then _ else _) = Except.ok task at h
      split at h
      · cases h
      · cases h
        exact ⟨slots.1, rfl⟩

omit [FloatingPoint F] in
theorem length_expectMore {models : Models aif} {roster : List Role} {expected : List Nat} :
    (expectMore models roster expected).length = expected.length := by
  cases models with
  | roleSpecialised models =>
      rw [expectMore]
      induction roster generalizing expected with
      | nil => rfl
      | cons r roster ih => rw [List.foldl_cons, ih, List.length_modify]
  | shared model => exact List.length_modify _ _ _

omit [FloatingPoint F] in
/-- What is expected grows by what is asked. -/
theorem sum_expectMore {models : Models aif} {roster : List Role} {expected : List Nat}
    (hlen : 0 < expected.length)
    (hroster : models.topology = .roleSpecialised → ∀ r ∈ roster, r.toNat < expected.length) :
    (expectMore models roster expected).sum =
      expected.sum + models.topology.asked roster.length := by
  cases models with
  | roleSpecialised models =>
      rw [expectMore]
      replace hroster := hroster rfl
      clear hlen
      induction roster generalizing expected with
      | nil => rfl
      | cons r roster ih =>
          have hr := hroster r List.mem_cons_self
          rw [List.foldl_cons, ih, sum_modify_succ hr]
          · exact Nat.add_right_comm _ 1 _
          · intro r' hr'
            rw [List.length_modify]
            exact hroster r' (List.mem_cons_of_mem r hr')
  | shared model => exact sum_modify_succ hlen

/-- The state with a task put in force. -/
def begun (policy : GroupAifPolicy aif) (task : TaskState) (s : GroupState aif) : GroupState aif :=
  { s with
    task := some task
    counters := { s.counters with
      rosterSizes := s.counters.rosterSizes ++ [task.roster.length]
      emptyRoleSlots := s.counters.emptyRoleSlots +
        (policy.config.nRoles - task.roster.length) }
    expected := expectMore s.models task.roster s.expected }

theorem beginTask_ensures {demand : CountedDemand} :
    Ensures (policy.beginTask demand) s fun answer t ↦
      match policy.plan demand with
      | .error e => answer = .error e ∧ t = { s with task := none }
      | .ok task => answer = .ok task.roster.length ∧ t = begun policy task s := by
  refine .modifyGet_bind ?_
  cases policy.plan demand with
  | error e => exact .pure ⟨rfl, rfl⟩
  | ok task => exact .modifyGet_bind (.modifyGet_bind (.pure ⟨rfl, rfl⟩))

/-! ## Observing an outcome -/

/-- So many world models have learned, and nothing else has changed. -/
structure Learned (s t : GroupState aif) (applied : Nat) : Prop where
  task : t.task = s.task
  counters : t.counters = s.counters
  expected : t.expected = s.expected
  topology : t.models.topology = s.models.topology
  len : t.models.len = s.models.len
  length : t.updates.length = s.updates.length
  sum : t.updates.sum = s.updates.sum + applied

omit [FloatingPoint F] in
theorem Learned.refl (s : GroupState aif) : Learned s s 0 := ⟨rfl, rfl, rfl, rfl, rfl, rfl, rfl⟩

omit [FloatingPoint F] in
theorem Learned.trans {u : GroupState aif} {m n : Nat} (h : Learned s t m) (h' : Learned t u n) :
    Learned s u (m + n) where
  task := h'.task.trans h.task
  counters := h'.counters.trans h.counters
  expected := h'.expected.trans h.expected
  topology := h'.topology.trans h.topology
  len := h'.len.trans h.len
  length := h'.length.trans h.length
  sum := by rw [h'.sum, h.sum, Nat.add_assoc]

omit [FloatingPoint F] in
theorem countUpdate_ensures {index : Nat} :
    Ensures (countUpdate index) s fun _ t ↦ Learned s t 1 := by
  refine .get_bind ?_
  by_cases h : index < s.updates.length
  · rw [if_pos h]
    refine .modifyGet ⟨rfl, rfl, rfl, rfl, rfl, List.length_modify _ _ _, sum_modify_succ h⟩
  · rw [if_neg h]
    exact .stuck

theorem learnOutcome_ensures {index : Nat} {model : Inner aif.toAif} {required : UInt32}
    {perBitSuccess : List Bool} :
    Ensures (policy.learnOutcome index model required perBitSuccess) s fun applied t ↦
      Learned s t applied ∧ applied ≤ 1 := by
  refine .lift_bind fun learned _ ↦ .modifyGet_bind ?_
  have hset : Learned s { s with models := s.models.set index learned.2 } 0 :=
    ⟨rfl, rfl, rfl, Models.topology_set, Models.len_set, rfl, rfl⟩
  cases learned.1 with
  | false => exact .pure ⟨hset, Nat.zero_le 1⟩
  | true =>
      refine countUpdate_ensures.bind fun _ t ht ↦ .pure ⟨?_, le_rfl⟩
      exact hset.trans ht

theorem learnRole_ensures {task : TaskState} {perBitSuccess : List Bool} {applied : Nat}
    {role : Role} :
    Ensures (policy.learnRole task perBitSuccess applied role) s fun applied' t ↦
      ∃ n, applied' = applied + n ∧ Learned s t n ∧ n ≤ 1 := by
  refine .get_bind ?_
  cases s.models with
  | shared model => exact .pure ⟨0, rfl, .refl s, Nat.zero_le 1⟩
  | roleSpecialised models =>
      dsimp only
      cases models[role.toNat]? with
      | none => exact .pure ⟨0, rfl, .refl s, Nat.zero_le 1⟩
      | some model =>
          refine .lift_bind fun required _ ↦ ?_
          exact learnOutcome_ensures.bind fun n t ht ↦ .pure ⟨n, rfl, ht⟩

/-- The world models behind a roster learn, each at most once. -/
theorem learnRoles_ensures {task : TaskState} {perBitSuccess : List Bool} {roster : List Role} :
    Ensures (roster.foldlM (policy.learnRole task perBitSuccess) 0) s fun applied t ↦
      Learned s t applied ∧ applied ≤ roster.length := by
  refine Ensures.foldlM (fun front applied t ↦ Learned s t applied ∧ applied ≤ front.length)
    (fun front role _ applied t ht ↦ ?_) ⟨.refl s, le_rfl⟩
  refine learnRole_ensures.imp fun applied' u hu ↦ ?_
  obtain ⟨n, rfl, hlearned, hn⟩ := hu
  rw [List.length_append]
  exact ⟨ht.1.trans hlearned, Nat.add_le_add ht.2 hn⟩

/-- The task whose outcome it would be, if it has the right width. -/
def observedTask (policy : GroupAifPolicy aif) (s : GroupState aif) (perBitSuccess : List Bool) :
    Option TaskState := if perBitSuccess.length = policy.nBits then s.task else none

theorem observeOutcome_ensures {perBitSuccess : List Bool} :
    Ensures (policy.observeOutcome perBitSuccess) s fun applied t ↦
      match policy.observedTask s perBitSuccess with
      | none => applied = 0 ∧ t = s
      | some task =>
          applied ≤ s.models.topology.asked task.roster.length ∧
            ∃ u, Learned s u applied ∧
              t = { u with counters := { u.counters with
                tasksObserved := u.counters.tasksObserved + 1 } } := by
  rw [observeOutcome, observedTask]
  by_cases hwidth : perBitSuccess.length = policy.nBits
  · rw [if_neg (not_not_intro hwidth), if_pos hwidth]
    refine .get_bind ?_
    cases s.task with
    | none => exact .pure ⟨rfl, rfl⟩
    | some task =>
        refine .get_bind ?_
        cases hmodels : s.models with
        | roleSpecialised models =>
            refine learnRoles_ensures.bind fun applied u hu ↦ ?_
            exact .modifyGet_bind (.pure ⟨hu.2, u, hu.1, rfl⟩)
        | shared model =>
            refine learnOutcome_ensures.bind fun applied u hu ↦ ?_
            exact .modifyGet_bind (.pure ⟨hu.2, u, hu.1, rfl⟩)
  · rw [if_pos hwidth, if_neg hwidth]
    exact .pure ⟨rfl, rfl⟩

end GroupAifPolicy

end Koalisi.Decision
