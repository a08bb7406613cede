import Koalisi.Decision.Books

/-!
# The gate of the group arm

The gate reads the counters at the end: have the world models learned as often as the tasks asked
of them, and were there as many outcomes as tasks?  What happened is told by a record of each task
that was put in force, with the outcomes that were observed while it was.

The counters are sums over the records.  As long as no task is observed twice, an exact gate means
that every task was observed once, and that everything it asked for was learned.  Where one task is
observed twice, it makes up for another that is not observed at all, and the gate is exact as well.
-/

namespace Koalisi.Decision

open Koalisi.Lib
open Koalisi.Harness (Role)

variable {F : Type} [FloatingPoint F]

/-! ## Records -/

/-- A task that was put in force, and how many world models have learned from each observation of
its outcome. -/
structure TaskRecord where
  task : TaskState
  observed : List Nat
deriving DecidableEq, Repr

namespace TaskRecord

/-- How many world models the task asks to learn. -/
def asked (topology : WorldModelTopology) (r : TaskRecord) : Nat :=
  topology.asked r.task.roster.length

/-- One more observation. -/
def observe (applied : Nat) (r : TaskRecord) : TaskRecord :=
  { r with observed := r.observed ++ [applied] }

/-- The task was observed once, and everything that it asks for was learned. -/
def Settled (topology : WorldModelTopology) (r : TaskRecord) : Prop :=
  r.observed = [r.asked topology]

end TaskRecord

namespace GroupAifPolicy

variable {aif : GroupAif F} {policy : GroupAifPolicy aif} {s t : GroupState aif}
variable {records : List TaskRecord} {call : GroupCall} {calls : List GroupCall}

/-- The records after a call, the newest task first. -/
def recordCall (policy : GroupAifPolicy aif) (s : GroupState aif) (records : List TaskRecord)
    (call : GroupCall) : List TaskRecord :=
  match call.demand?, call.outcome? with
  | some demand, _ =>
      match policy.plan demand with
      | .error _ => records
      | .ok task => ⟨task, []⟩ :: records
  | none, none => records
  | none, some perBitSuccess =>
      match policy.observedTask s perBitSuccess, (policy.observeOutcome perBitSuccess).run s with
      | some _, some (applied, _) => records.modifyHead (·.observe applied)
      | _, _ => records

/-- The records after calls that come one after the other. -/
def history (policy : GroupAifPolicy aif) :
    GroupState aif → List TaskRecord → List GroupCall → List TaskRecord
  | _, records, [] => records
  | s, records, call :: calls =>
      match (call.perform policy).run s with
      | none => records
      | some (_, t) => history policy t (recordCall policy s records call) calls

/-- An outcome that is observed is the first one of the task in force. -/
def FirstTime (policy : GroupAifPolicy aif) (s : GroupState aif) (records : List TaskRecord)
    (call : GroupCall) : Prop :=
  ∀ perBitSuccess ∈ call.outcome?, (policy.observedTask s perBitSuccess).isSome →
    ∀ r ∈ records.head?, r.observed = []

/-- No task is observed twice. -/
def AllFirstTime (policy : GroupAifPolicy aif) :
    GroupState aif → List TaskRecord → List GroupCall → Prop
  | _, _, [] => True
  | s, records, call :: calls =>
      FirstTime policy s records call ∧ ∀ p ∈ (call.perform policy).run s,
        AllFirstTime policy p.2 (recordCall policy s records call) calls

instance decidableFirstTime (policy : GroupAifPolicy aif) (s : GroupState aif)
    (records : List TaskRecord) (call : GroupCall) : Decidable (FirstTime policy s records call) :=
  inferInstanceAs (Decidable (∀ perBitSuccess ∈ _, _ → ∀ r ∈ _, _))

instance decidableAllFirstTime (policy : GroupAifPolicy aif) :
    ∀ (s : GroupState aif) records calls, Decidable (AllFirstTime policy s records calls)
  | _, _, [] => inferInstanceAs (Decidable True)
  | _, _, _ :: calls =>
      have (s : GroupState aif) (records : List TaskRecord) :=
        decidableAllFirstTime policy s records calls
      inferInstanceAs (Decidable (_ ∧ ∀ p ∈ _, AllFirstTime policy _ _ calls))

/-! ## What the counters say of the records -/

/-- The counters are sums over the records, and the newest record is of the task in force. -/
structure Tallies (policy : GroupAifPolicy aif) (s : GroupState aif) (records : List TaskRecord) :
    Prop where
  shaped : Shaped policy s
  opened : s.counters.rosterSizes.length = records.length
  observed : s.counters.tasksObserved = (records.map (·.observed.length)).sum
  expected : s.expected.sum = (records.map (·.asked policy.config.topology)).sum
  updates : s.updates.sum = (records.map (·.observed.sum)).sum
  inForce : ∀ task ∈ s.task, ∃ r ∈ records.head?, r.task = task

/-- The task was observed at most once, and no more was learned than it asks for. -/
structure Fair (topology : WorldModelTopology) (r : TaskRecord) : Prop where
  once : r.observed.length ≤ 1
  le_asked : r.observed.sum ≤ r.asked topology

theorem Tallies.decides {exit : Exit F} {tally : LeaveTally} (h : Tallies policy s records)
    (hdecides : Decides policy s t exit tally) : Tallies policy t records := by
  obtain ⟨counter, rfl⟩ := hdecides.state
  refine ⟨⟨h.shaped.topology, h.shaped.len, h.shaped.updates, h.shaped.expected⟩, ?_, ?_,
    h.expected, h.updates, h.inForce⟩
  · refine Eq.trans ?_ h.opened
    simp only [GroupAifCounters.tallied, GroupAifCounters.rosterSizes_closed,
      GroupAifCounters.opened]
  · refine Eq.trans ?_ h.observed
    simp only [GroupAifCounters.tallied, GroupAifCounters.tasksObserved_closed,
      GroupAifCounters.opened]

theorem task_of_observedTask {perBitSuccess : List Bool} {task : TaskState}
    (h : policy.observedTask s perBitSuccess = some task) : s.task = some task := by
  rw [observedTask] at h
  split at h
  · exact h
  · cases h

/-- What is learned from an observation is entered in the record of the task in force. -/
theorem Tallies.learned {r : TaskRecord} {rest : List TaskRecord} {applied unapplied : Nat}
    (h : Tallies policy s (r :: rest)) (hlearned : Learned s t applied)
    (hshaped : Shaped policy (t.withCounters { t.counters with
      tasksObserved := t.counters.tasksObserved + 1
      outcomeUpdatesUnapplied := unapplied })) :
    Tallies policy (t.withCounters { t.counters with
      tasksObserved := t.counters.tasksObserved + 1
      outcomeUpdatesUnapplied := unapplied }) (r.observe applied :: rest) := by
  refine ⟨hshaped, ?_, ?_, ?_, ?_, fun task htask ↦ ?_⟩
  · exact (congrArg (·.rosterSizes.length) hlearned.counters).trans h.opened
  · have hobserved : t.counters.tasksObserved = _ :=
      (congrArg (·.tasksObserved) hlearned.counters).trans h.observed
    change t.counters.tasksObserved + 1 = _
    rw [hobserved, List.map_cons, List.map_cons, List.sum_cons, List.sum_cons, TaskRecord.observe,
      List.length_append]
    exact Nat.add_right_comm _ _ 1
  · exact (congrArg List.sum hlearned.expected).trans h.expected
  · change t.updates.sum = _
    rw [hlearned.sum, h.updates, List.map_cons, List.map_cons, List.sum_cons, List.sum_cons,
      TaskRecord.observe, List.sum_append, List.sum_singleton]
    exact Nat.add_right_comm _ _ applied
  · obtain ⟨r', hr', rfl⟩ := h.inForce task (hlearned.task.symm.trans htask)
    cases hr'
    exact ⟨_, rfl, rfl⟩

/-- One call more. -/
theorem Tallies.performs (h : Tallies policy s records) (hcall : Performs policy s call t) :
    Tallies policy t (recordCall policy s records call) := by
  have hshaped := h.shaped.performs hcall
  cases hcall with
  | refuse hdemand hplan =>
      rw [recordCall, hdemand]
      dsimp only
      rw [hplan]
      refine ⟨hshaped, h.opened, h.observed, h.expected, h.updates, fun task htask ↦ ?_⟩
      cases htask
  | begin hdemand hplan =>
      rw [recordCall, hdemand]
      dsimp only
      rw [hplan]
      refine ⟨hshaped, ?_, ?_, ?_, ?_, fun task htask ↦ ?_⟩
      · exact List.length_append.trans (congrArg (· + 1) h.opened)
      · exact h.observed.trans (Nat.zero_add _).symm
      · rw [sum_expected_begun h.shaped hplan, h.expected]
        exact Nat.add_comm _ _
      · exact h.updates.trans (Nat.zero_add _).symm
      · cases htask
        exact ⟨_, rfl, rfl⟩
  | decide hdemand houtcome hdecides =>
      rw [recordCall, hdemand, houtcome]
      exact h.decides hdecides
  | skip hdemand houtcome hnone =>
      rw [recordCall, hdemand, houtcome]
      dsimp only
      rw [hnone]
      exact ⟨hshaped, h.opened, h.observed, h.expected, h.updates, h.inForce⟩
  | observe hdemand houtcome hsome hrun happlied hlearned =>
      rw [recordCall, hdemand, houtcome]
      dsimp only
      rw [hsome, hrun]
      have htask := task_of_observedTask hsome
      obtain ⟨r, hr, -⟩ := h.inForce _ htask
      obtain ⟨rest, rfl⟩ := List.head?_eq_some_iff.mp hr
      exact h.learned hlearned hshaped

/-- A task that is observed for the first time is observed fairly. -/
theorem fair_recordCall (h : Tallies policy s records) (hfirst : FirstTime policy s records call)
    (hfair : ∀ r ∈ records, Fair policy.config.topology r) (hcall : Performs policy s call t) :
    ∀ r ∈ recordCall policy s records call, Fair policy.config.topology r := by
  cases hcall with
  | refuse hdemand hplan =>
      rw [recordCall, hdemand]
      dsimp only
      rw [hplan]
      exact hfair
  | begin hdemand hplan =>
      rw [recordCall, hdemand]
      dsimp only
      rw [hplan]
      exact List.forall_mem_cons.mpr ⟨⟨Nat.zero_le 1, Nat.zero_le _⟩, hfair⟩
  | decide hdemand houtcome hdecides =>
      rw [recordCall, hdemand, houtcome]
      exact hfair
  | skip hdemand houtcome hnone =>
      rw [recordCall, hdemand, houtcome]
      dsimp only
      rw [hnone]
      exact hfair
  | observe hdemand houtcome hsome hrun happlied hlearned =>
      rw [recordCall, hdemand, houtcome]
      dsimp only
      rw [hsome, hrun]
      have htask := task_of_observedTask hsome
      obtain ⟨r, hr, rfl⟩ := h.inForce _ htask
      obtain ⟨rest, rfl⟩ := List.head?_eq_some_iff.mp hr
      have hnone : r.observed = [] :=
        hfirst _ houtcome (Option.isSome_of_eq_some hsome) r rfl
      refine List.forall_mem_cons.mpr ⟨⟨?_, ?_⟩, fun r' hr' ↦ hfair r' (List.mem_cons_of_mem _ hr')⟩
      · change (r.observed ++ [_]).length ≤ 1
        rw [hnone]
        exact le_rfl
      · change (r.observed ++ [_]).sum ≤ r.asked policy.config.topology
        rw [hnone, ← h.shaped.topology]
        exact happlied

/-- While no task is observed twice, the counters are sums over records that are fair. -/
theorem tallies_history (hrun : run policy s calls = some t)
    (hfirst : AllFirstTime policy s records calls) (h : Tallies policy s records)
    (hfair : ∀ r ∈ records, Fair policy.config.topology r) :
    Tallies policy t (history policy s records calls) ∧
      ∀ r ∈ history policy s records calls, Fair policy.config.topology r := by
  induction calls generalizing s records with
  | nil =>
      cases hrun
      exact ⟨h, hfair⟩
  | cons call calls ih =>
      obtain ⟨u, hu, hrest⟩ := Option.bind_eq_some_iff.mp hrun
      obtain ⟨⟨_, u⟩, hperform, rfl⟩ := Option.map_eq_some_iff.mp hu
      have hcall : Performs policy s call u := perform_ensures call _ _ hperform
      obtain ⟨hfirst, hrestFirst⟩ := hfirst
      rw [history, hperform]
      exact ih hrest (hrestFirst _ hperform) (h.performs hcall)
        (fair_recordCall h hfirst hfair hcall)

/-! ## The gate -/

/-- What the world models have learned, as it is reported. -/
theorem map_updates_counters (h : Shaped policy s) :
    (policy.counters s).modelUpdates.map (·.updates) = s.updates := by
  rw [counters, List.map_map]
  exact map_zipIdx_getD (h.length_labels.trans h.updates.symm)

/-- An exact gate finds as many outcomes as tasks, and as much learned as expected. -/
theorem sums_of_sLearnExact (h : Shaped policy s)
    (hexact : (policy.counters s).sLearnExact = true) :
    s.counters.rosterSizes.length = s.counters.tasksObserved ∧ s.updates.sum = s.expected.sum := by
  rw [GroupAifCounters.sLearnExact, Bool.and_eq_true] at hexact
  obtain ⟨hmodels, hstream⟩ := hexact
  refine ⟨of_decide_eq_true hstream, congrArg List.sum ?_⟩
  rw [← map_updates_counters h, ← map_expected_counters h]
  exact List.map_congr_left fun audit haudit ↦
    of_decide_eq_true (List.all_eq_true.mp hmodels audit haudit)

/-- If the tallies are exact, every record that is fair is settled. -/
theorem settled_of_tallies (h : Tallies policy s records)
    (hfair : ∀ r ∈ records, Fair policy.config.topology r)
    (hexact : (policy.counters s).sLearnExact = true) :
    ∀ r ∈ records, r.Settled policy.config.topology := by
  obtain ⟨hstream, hsum⟩ := sums_of_sLearnExact h.shaped hexact
  intro r hr
  have honce : r.observed.length = 1 := by
    refine eq_of_sum_eq (fun r hr ↦ (hfair r hr).once) ?_ hr
    rw [← h.observed, ← hstream, h.opened, List.map_const', List.sum_replicate_nat, Nat.mul_one]
  have hall : r.observed.sum = r.asked policy.config.topology := by
    refine eq_of_sum_eq (fun r hr ↦ (hfair r hr).le_asked) ?_ hr
    rw [← h.updates, hsum, h.expected]
  obtain ⟨applied, happlied⟩ := List.length_eq_one_iff.mp honce
  rw [TaskRecord.Settled, ← hall, happlied, List.sum_singleton]

theorem tallies_new {batterySeed : UInt64} {config : GroupAifConfig F}
    {agentRoles : Nat → Option Role}
    (hnew : GroupAifPolicy.new aif batterySeed config agentRoles = some (.ok (policy, s))) :
    Tallies policy s [] := by
  have hunused := unused_new hnew
  refine ⟨hunused.shaped, ?_, ?_, hunused.expected, hunused.updates, fun task htask ↦ ?_⟩
  · rw [hunused.counters]
    rfl
  · rw [hunused.counters]
    rfl
  · cases hunused.task.symm.trans htask

/-- As long as no task is observed twice, the gate is exact only if every task that was put in
force has been observed once, and everything that it asks for has been learned. -/
theorem gate_sound {batterySeed : UInt64} {config : GroupAifConfig F}
    {agentRoles : Nat → Option Role} {s₀ : GroupState aif}
    (hnew : GroupAifPolicy.new aif batterySeed config agentRoles = some (.ok (policy, s₀)))
    (hrun : run policy s₀ calls = some s) (hfirst : AllFirstTime policy s₀ [] calls)
    (hexact : (policy.counters s).sLearnExact = true) :
    ∀ r ∈ history policy s₀ [] calls, r.Settled policy.config.topology := by
  obtain ⟨htallies, hfair⟩ :=
    tallies_history hrun hfirst (tallies_new hnew) (List.forall_mem_nil _)
  exact settled_of_tallies htallies hfair hexact

/-! ### One task after the other, and one in place of the other -/

section Sample

attribute [local instance] exactNumbers

/-- A new arm whose gate is exact after the calls, and what is known of it then. -/
def ExactAfter (aif : GroupAif ℚ) (config : GroupAifConfig ℚ) (agentRoles : Nat → Option Role)
    (calls : List GroupCall)
    (P : (policy : GroupAifPolicy aif) → (s₀ s : GroupState aif) → Prop) : Prop :=
  ∃ built ∈ GroupAifPolicy.new aif 0 config agentRoles, ∃ p ∈ built.toOption,
    ∃ s ∈ run p.1 p.2 calls, (p.1.counters s).sLearnExact = true ∧ P p.1 p.2 s

instance decidableExactAfter {aif : GroupAif ℚ} {config : GroupAifConfig ℚ}
    {agentRoles : Nat → Option Role} {calls : List GroupCall}
    {P : (policy : GroupAifPolicy aif) → (s₀ s : GroupState aif) → Prop}
    [∀ policy s₀ s, Decidable (P policy s₀ s)] :
    Decidable (ExactAfter aif config agentRoles calls P) :=
  inferInstanceAs (Decidable (∃ built ∈ GroupAifPolicy.new aif 0 config agentRoles,
    ∃ p ∈ built.toOption, ∃ s ∈ run p.1 p.2 calls, _ ∧ _))

theorem exists_of_exactAfter {aif : GroupAif ℚ} {config : GroupAifConfig ℚ}
    {agentRoles : Nat → Option Role} {calls : List GroupCall}
    {P : (policy : GroupAifPolicy aif) → (s₀ s : GroupState aif) → Prop}
    (h : ExactAfter aif config agentRoles calls P) :
    ∃ (policy : GroupAifPolicy aif) (s₀ s : GroupState aif),
      GroupAifPolicy.new aif 0 config agentRoles = some (.ok (policy, s₀)) ∧
        run policy s₀ calls = some s ∧ (policy.counters s).sLearnExact = true ∧ P policy s₀ s := by
  obtain ⟨built, hnew, p, hp, s, hrun, hexact, hP⟩ := h
  cases built with
  | error e => cases hp
  | ok built =>
      cases hp
      exact ⟨p.1, p.2, s, hnew, hrun, hexact, hP⟩

/-- Two tasks, and an outcome after each. -/
def oneAfterTheOther : List GroupCall :=
  [.beginTask bothDemanded, .observeOutcome [true, false],
    .beginTask bothDemanded, .observeOutcome [true, true]]

theorem one_after_the_other_gate_sound : ∃ (policy : GroupAifPolicy undecidedGroup)
    (s₀ s : GroupState undecidedGroup),
    GroupAifPolicy.new undecidedGroup 0 twoRoles roleOfId = some (.ok (policy, s₀)) ∧
      run policy s₀ oneAfterTheOther = some s ∧ (policy.counters s).sLearnExact = true ∧
      (history policy s₀ [] oneAfterTheOther).length = 2 ∧
      ∀ r ∈ history policy s₀ [] oneAfterTheOther, r.Settled policy.config.topology := by
  have hafter : ExactAfter undecidedGroup twoRoles roleOfId oneAfterTheOther fun policy s₀ _ ↦
      AllFirstTime policy s₀ [] oneAfterTheOther ∧
        (history policy s₀ [] oneAfterTheOther).length = 2 := by decide +kernel
  obtain ⟨policy, s₀, s, hnew, hrun, hexact, hfirst, hlength⟩ := exists_of_exactAfter hafter
  exact ⟨policy, s₀, s, hnew, hrun, hexact, hlength, gate_sound hnew hrun hfirst hexact⟩

/-- Two tasks, of which the first is never observed and the second is observed twice. -/
def oneForTheOther : List GroupCall :=
  [.beginTask bothDemanded, .beginTask bothDemanded,
    .observeOutcome [true, false], .observeOutcome [true, true]]

/-- The second outcome of the one task makes up for the missing outcome of the other. -/
theorem one_for_the_other_exact : ∃ (policy : GroupAifPolicy undecidedGroup)
    (s₀ s : GroupState undecidedGroup),
    GroupAifPolicy.new undecidedGroup 0 twoRoles roleOfId = some (.ok (policy, s₀)) ∧
      run policy s₀ oneForTheOther = some s ∧ (policy.counters s).sLearnExact = true ∧
      (history policy s₀ [] oneForTheOther).map (·.observed) = [[2, 2], []] ∧
      ¬∀ r ∈ history policy s₀ [] oneForTheOther, r.Settled policy.config.topology := by
  have hafter : ExactAfter undecidedGroup twoRoles roleOfId oneForTheOther fun policy s₀ _ ↦
      (history policy s₀ [] oneForTheOther).map (·.observed) = [[2, 2], []] := by decide +kernel
  obtain ⟨policy, s₀, s, hnew, hrun, hexact, hobserved⟩ := exists_of_exactAfter hafter
  refine ⟨policy, s₀, s, hnew, hrun, hexact, hobserved, fun hsettled ↦ ?_⟩
  have hmem : [] ∈ (history policy s₀ [] oneForTheOther).map (·.observed) := by
    rw [hobserved]
    exact List.mem_cons_of_mem _ List.mem_cons_self
  obtain ⟨r, hr, hnone⟩ := List.mem_map.mp hmem
  cases hnone.symm.trans (hsettled r hr)

end Sample

end GroupAifPolicy

end Koalisi.Decision
