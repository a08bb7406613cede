import Mathlib.Data.Rat.Defs
import Koalisi.Harness.Recon

/-!
# The harness and the reconstruction agree

The harness asks a policy and may panic; the reconstruction reads answers from a trace and
may find that they do not fit.  Both are loops over tasks, over arrivals and over members,
and they are compared loop by loop: what the harness writes, the reconstruction reads; what
the reconstruction reads, the harness writes when it is given the same answers; and what
the reconstruction reads is settled by the answers.
-/

namespace Koalisi.Harness

open Koalisi.Lib Koalisi.Lib.Fallible Koalisi.Lib.Transcript
open Koalisi.Topology (U64 Decision DecisionContext)

variable {σ F α : Type}

/-! ## Loops that may panic -/

/-- A search that has found an answer, found that of a search that cannot panic. -/
theorem any_of_anyM {p : α → Option Bool} {q : α → Bool} {l : List α} {b : Bool}
    (hpq : ∀ a ∈ l, ∀ c, p a = some c → q a = c) (h : l.anyM p = some b) : l.any q = b := by
  induction l with
  | nil => exact Option.some.inj h
  | cons a l ih =>
      rw [List.anyM] at h
      obtain ⟨c, hc, h⟩ := Option.bind_eq_some_iff.mp h
      rw [List.any_cons, hpq a List.mem_cons_self c hc]
      cases c with
      | true => exact Option.some.inj h
      | false => exact ih (fun a' ha ↦ hpq a' (List.mem_cons_of_mem a ha)) h

theorem exists_anyM {p : α → Option Bool} {l : List α} (h : ∀ a ∈ l, ∃ c, p a = some c) :
    ∃ b, l.anyM p = some b := by
  induction l with
  | nil => exact ⟨false, rfl⟩
  | cons a l ih =>
      obtain ⟨c, hc⟩ := h a List.mem_cons_self
      obtain ⟨b, hb⟩ := ih fun a' ha ↦ h a' (List.mem_cons_of_mem a ha)
      rw [List.anyM, hc]
      cases c with
      | true => exact ⟨true, rfl⟩
      | false => exact ⟨b, hb⟩

/-- A loop that succeeds at every item. -/
theorem exists_foldlM {β : Type} {f : β → α → Option β} {l : List α}
    (h : ∀ b, ∀ a ∈ l, ∃ c, f b a = some c) (b : β) : ∃ c, l.foldlM f b = some c := by
  induction l generalizing b with
  | nil => exact ⟨b, rfl⟩
  | cons a l ih =>
      obtain ⟨c, hc⟩ := h b a List.mem_cons_self
      rw [List.foldlM_cons, hc]
      exact ih (fun b' a' ha ↦ h b' a' (List.mem_cons_of_mem a ha)) c

theorem exists_mapM {β : Type} {f : α → Option β} {l : List α} (h : ∀ a ∈ l, ∃ b, f a = some b) :
    ∃ bs, l.mapM f = some bs := by
  induction l with
  | nil => exact ⟨[], rfl⟩
  | cons a l ih =>
      obtain ⟨b, hb⟩ := h a List.mem_cons_self
      obtain ⟨bs, hbs⟩ := ih fun a' ha ↦ h a' (List.mem_cons_of_mem a ha)
      exact ⟨b :: bs, by rw [List.mapM_cons, hb, hbs]; rfl⟩

/-- A count that may panic counts what a count that cannot panic counts. -/
theorem countP_of_countM {p : α → Option Bool} {q : α → Bool} {l : List α} {n : Nat}
    (hpq : ∀ a ∈ l, ∀ c, p a = some c → q a = c) (h : countM p l = some n) : l.countP q = n := by
  suffices hfrom : ∀ start, l.foldlM (fun n a ↦ do return if ← p a then n + 1 else n) start =
      some n → start + l.countP q = n by
    rw [← hfrom 0 h, Nat.zero_add]
  clear h
  induction l with
  | nil => exact fun start h ↦ Option.some.inj h
  | cons a l ih =>
      intro start h
      rw [List.foldlM_cons] at h
      obtain ⟨m, hm, h⟩ := Option.bind_eq_some_iff.mp h
      obtain ⟨c, hc, hm⟩ := Option.bind_eq_some_iff.mp hm
      have hrest := ih (fun a' ha ↦ hpq a' (List.mem_cons_of_mem a ha)) m h
      rw [List.countP_cons, hpq a List.mem_cons_self c hc]
      cases c with
      | true =>
          cases hm
          rw [if_pos rfl] at hrest ⊢
          omega
      | false =>
          cases hm
          rw [if_neg Bool.false_ne_true] at hrest ⊢
          omega

theorem exists_countM {p : α → Option Bool} {l : List α} (h : ∀ a ∈ l, ∃ c, p a = some c) :
    ∃ n, countM p l = some n :=
  exists_foldlM (fun n a ha ↦ by
    obtain ⟨c, hc⟩ := h a ha
    exact ⟨if c then n + 1 else n, by rw [hc]; rfl⟩) 0

/-! ## Coverage -/

section Coverage

variable {inst : WorkflowInstance} {members : List Nat} {step : Step}

/-- The two notions of coverage agree where the harness does not panic. -/
theorem stepCovered_eq {b : Bool} (h : stepCovered inst members step = some b) :
    Recon.stepCovered inst members step = b := by
  unfold stepCovered at h
  unfold Recon.stepCovered
  generalize step.capabilityMask = mask at h
  cases mask with
  | none => exact Option.some.inj h
  | some mask =>
      refine any_of_anyM (fun i _ c hc ↦ ?_) h
      by_cases hrole : inst.roles[i]? = some step.role
      · rw [if_pos hrole] at hc
        obtain ⟨agent, hagent, hc⟩ := Option.bind_eq_some_iff.mp hc
        rw [hagent, decide_eq_true hrole, Bool.true_and]
        exact Option.some.inj hc
      · rw [if_neg hrole] at hc
        rw [decide_eq_false hrole, Bool.false_and]
        exact Option.some.inj hc

/-- The harness does not panic over agents of the pool. -/
theorem exists_stepCovered (h : ∀ i ∈ members, i < inst.agents.length) (step : Step) :
    ∃ b, stepCovered inst members step = some b := by
  unfold stepCovered
  split
  · exact ⟨false, rfl⟩
  · refine exists_anyM fun i hi ↦ ?_
    split
    · rw [List.getElem?_eq_getElem (h i hi)]
      exact ⟨_, rfl⟩
    · exact ⟨false, rfl⟩

end Coverage

/-- The draw that is used is that of the instance. -/
theorem performanceRows_eq_ok {inst : WorkflowInstance} {signal : OutcomeSignal}
    {rows : Option (List (List Bool))} (h : performanceRows inst signal = .ok rows) :
    rows = inst.performance ∧ (signal.needsPerformance = true → rows.isSome) ∧
      ∀ table, rows = some table → table.length = inst.tasks.length ∧
        ∀ row ∈ table, row.length = inst.agents.length := by
  unfold performanceRows at h
  split at h
  · rename_i hnone
    split at h
    · cases h
    · rename_i hsignal
      cases h
      exact ⟨hnone.symm, fun hneeds ↦ absurd hneeds hsignal, fun table htable ↦ nomatch htable⟩
  · rename_i table hsome
    split at h
    · cases h
    · rename_i hshape
      cases h
      rw [not_or] at hshape
      refine ⟨hsome.symm, fun _ ↦ rfl, fun table' htable ↦ ?_⟩
      cases htable
      exact ⟨not_not.mp hshape.1, fun row hrow ↦ by_contra fun hne ↦ hshape.2 ⟨row, hrow, hne⟩⟩

/-! ## Scores -/

section Scores

variable [Zero F] [NatCast F] [Add F] [Div F]
variable {inst : WorkflowInstance} {tally tally' : Tally F} {progress : Recon.Progress F}

/-- The sums of the two loops are the same. -/
structure Matches (inst : WorkflowInstance) (tally : Tally F) (progress : Recon.Progress F) :
    Prop where
  successCount : tally.successCount = progress.successCount
  covEffSum : tally.covEffSum = progress.covEffSum
  churn : tally.churn = progress.churn
  performed : inst.performance.isSome → Recon.performedSums progress.tasks =
    (tally.performedSuccessCount, tally.performedCovEffSum)

theorem performedSums_concat (tasks : List (TaskEnd F)) (fin : TaskEnd F) :
    Recon.performedSums (tasks ++ [fin]) =
      ((Recon.performedSums tasks).1 + (decide (fin.performedSuccess = some true)).toNat,
        (Recon.performedSums tasks).2 + fin.performedCovEff.getD 0) := by
  rw [Recon.performedSums, List.foldl_append]
  rfl

/-- A task that is scored keeps the sums the same. -/
theorem Matches.scoreTask (h : Matches inst tally progress) {t : Nat} {task : WorkflowTask}
    {members : List Nat} {churn : Nat}
    (hscore : scoreTask inst inst.performance t task members churn tally = some tally') :
    Matches inst tally' {
      tasks := progress.tasks ++ [Recon.taskEnd inst t task members]
      successCount :=
        if 0 < (Recon.taskEnd inst t task members : TaskEnd F).steps ∧
            (Recon.taskEnd inst t task members : TaskEnd F).covered =
              (Recon.taskEnd inst t task members : TaskEnd F).steps then
          progress.successCount + 1
        else progress.successCount
      covEffSum := progress.covEffSum + (Recon.taskEnd inst t task members).covEff
      churn := churn } := by
  obtain ⟨covered, hcovered, hscore⟩ := Option.bind_eq_some_iff.mp hscore
  have hcount : task.demand.distinct.countP (Recon.stepCovered inst members) = covered :=
    countP_of_countM (fun _ _ _ hc ↦ stepCovered_eq hc) hcovered
  subst hcount
  have hcompleted : (decide (0 < task.demand.distinctLen) &&
      decide (task.demand.distinct.countP (Recon.stepCovered inst members) =
        task.demand.distinctLen)) = decide (0 < task.demand.distinctLen ∧
          task.demand.distinct.countP (Recon.stepCovered inst members) =
            task.demand.distinctLen) := (Bool.decide_and _ _).symm
  have hlength : (members.mergeSort (· ≤ ·)).length = members.length := List.length_mergeSort _
  simp only [hcompleted, decide_eq_true_eq] at hscore
  cases hperformance : inst.performance with
  | none =>
      rw [hperformance] at hscore
      cases hscore
      exact ⟨by rw [h.successCount]; rfl, congrArg (· + _) h.covEffSum, rfl,
        fun hsome ↦ by rw [hperformance] at hsome; cases hsome⟩
  | some rows =>
      rw [hperformance] at hscore
      cases hscore
      refine ⟨by rw [h.successCount]; rfl, congrArg (· + _) h.covEffSum, rfl, fun hsome ↦ ?_⟩
      rw [performedSums_concat, h.performed hsome]
      simp only [TaskEnd.performedSuccess, TaskEnd.performedCovEff, Recon.taskEnd, hperformance,
        Option.map_some, Option.getD_some, hlength, Option.some.injEq, Bool.decide_eq_true]

end Scores

/-! ## What the harness writes is read -/

section Readable

variable {toBits : F → U64} {seed : U64} {t : Nat}

theorem call_eq_ok {x : StateT σ Option α} {s s' : σ} {a : α} :
    call x s = .ok a s' ↔ x.run s = some (a, s') := by
  unfold call
  cases h : x.run s with
  | none => simp
  | some p =>
      obtain ⟨b, r⟩ := p
      simp

theorem unwrap_eq_ok {x : Option α} {s s' : σ} {a : α} :
    unwrap x s = .ok a s' ↔ x = some a ∧ s = s' := by
  unfold unwrap
  rw [look_eq_ok]
  cases x <;> simp

/-- What may panic writes nothing. -/
theorem silent_unwrap (x : Option α) (s : σ × List TraceEntry) (a : α) (s' : σ × List TraceEntry)
    (h : unwrap x s = .ok a s') : s'.2 = s.2 := by
  rw [(unwrap_eq_ok.mp h).2]

/-- Forwarded calls write nothing. -/
theorem silent_forward (x : StateT σ Option α) (s : σ × List TraceEntry) (a : α)
    (s' : σ × List TraceEntry) (h : call (TracedPolicy.forward x) s = .ok a s') : s'.2 = s.2 := by
  obtain ⟨⟨b, r⟩, -, hr⟩ := Option.map_eq_some_iff.mp (call_eq_ok.mp h)
  cases hr
  rfl

/-- A question is read back with its answer. -/
theorem readable_record (leave : Bool) (x : StateT σ Option (Decision F)) :
    Readable Prod.snd (fun decision act ↦ decision.act = act)
      (call (TracedPolicy.record toBits leave x)) (Recon.next seed t leave) := by
  intro s decision s' h
  obtain ⟨⟨d, r⟩, -, hr⟩ := Option.map_eq_some_iff.mp (call_eq_ok.mp h)
  cases hr
  refine ⟨[⟨leave, decision.act, toBits decision.score⟩], decision.act, rfl, rfl, fun rest ↦ ?_⟩
  exact if_neg fun hne ↦ hne rfl

variable {policy : Policy σ F} {agents : List CapabilityAgent} {ctx : DecisionContext}

theorem readable_askJoin (members : List Nat) (candidate : Nat) :
    Readable Prod.snd (· = ·)
      (askJoin (TracedPolicy.new toBits policy) agents ctx members candidate)
      (Recon.replayJoin seed t members candidate) := by
  refine Readable.silent_bind (silent_unwrap _) fun _ coalition _ _ ↦ ?_
  refine Readable.silent_bind (silent_unwrap _) fun _ agent _ _ ↦ ?_
  refine (readable_record false _).bind fun decision act hact ↦ readable_pure ?_
  rw [hact]

theorem readable_joins (arrival : List Nat) :
    Readable Prod.snd (· = ·) (joins (TracedPolicy.new toBits policy) agents ctx arrival)
      (Recon.replayJoins seed t arrival) := by
  cases arrival with
  | nil => exact readable_pure rfl
  | cons first arrivals =>
      refine Readable.foldlM (fun candidate _ members members' hmembers ↦ ?_) rfl
      subst hmembers
      exact readable_askJoin members candidate

theorem readable_askLeave (acc : List Nat × Nat) (idx : Nat) :
    Readable Prod.snd (· = ·) (askLeave (TracedPolicy.new toBits policy) agents ctx acc idx)
      (Recon.replayLeave seed t acc idx) := by
  obtain ⟨members, churn⟩ := acc
  simp only [askLeave, Recon.replayLeave]
  cases members.findIdx? (· = idx) with
  | none => exact readable_pure rfl
  | some pos =>
      refine Readable.silent_bind (silent_unwrap _) fun _ coalition _ _ ↦ ?_
      refine Readable.silent_bind (silent_unwrap _) fun _ agent _ _ ↦ ?_
      refine (readable_record true _).bind fun decision act hact ↦ readable_pure ?_
      rw [hact]

theorem readable_leaves (arrival members : List Nat) (churn : Nat) :
    Readable Prod.snd (· = ·)
      (leaves (TracedPolicy.new toBits policy) agents ctx arrival members churn)
      (arrival.foldlM (Recon.replayLeave seed t) (members, churn)) := by
  refine Readable.foldlM (fun idx _ acc acc' hacc ↦ ?_) rfl
  subst hacc
  exact readable_askLeave acc idx

variable [Zero F] [NatCast F] [Add F] [Div F]
variable {inst : WorkflowInstance} {signal : OutcomeSignal}

/-- One task. -/
theorem readable_runTask (task : WorkflowTask × Nat) {tally : Tally F}
    {progress : Recon.Progress F} (h : Matches inst tally progress) :
    Readable Prod.snd (Matches inst)
      (runTask (TracedPolicy.new toBits policy) inst signal inst.performance tally task)
      (Recon.replayTask inst progress task) := by
  obtain ⟨task, t⟩ := task
  refine Readable.silent_bind (silent_forward _) fun _ _ _ _ ↦ ?_
  refine (readable_joins task.arrival).bind fun members members' hmembers ↦ ?_
  subst hmembers
  rw [← h.churn]
  refine (readable_leaves task.arrival members tally.churn).bind fun acc acc' hacc ↦ ?_
  subst hacc
  obtain ⟨members, churn⟩ := acc
  refine Readable.silent_bind (silent_unwrap _) fun _ tally' _ hscore ↦ ?_
  refine Readable.silent_bind (silent_unwrap _) fun _ bits _ _ ↦ ?_
  refine Readable.silent_bind (silent_unwrap _) fun _ outcomes _ _ ↦ ?_
  refine Readable.silent_bind (silent_forward _) fun _ _ _ _ ↦ ?_
  exact readable_pure (h.scoreTask (unwrap_eq_ok.mp hscore).1)

theorem matches_start :
    Matches inst
      ({ successCount := 0, covEffSum := 0, performedSuccessCount := 0, performedCovEffSum := 0,
         churn := 0 } : Tally F)
      { tasks := [], successCount := 0, covEffSum := 0, churn := 0 } :=
  ⟨rfl, rfl, rfl, fun _ ↦ rfl⟩

end Readable

/-! ## What is read is settled by the answers -/

section Settled

/-- Reading an entry, or refusing it. -/
theorem next_eq_ok {seed : U64} {t : Nat} {leave act : Bool} {entries entries' : List TraceEntry}
    (h : Recon.next seed t leave entries = .ok act entries') :
    ∃ entry, entries = entry :: entries' ∧ entry.leave = leave ∧ entry.act = act := by
  unfold Recon.next at h
  split at h
  · cases h
  · rename_i entry rest
    split at h
    · cases h
    · rename_i hleave
      cases h
      exact ⟨entry, rfl, not_not.mp hleave, rfl⟩

theorem settled_next (seed : U64) (t : Nat) (leave : Bool) :
    Settled TraceEntry.answer (Recon.next seed t leave) := by
  intro l r b c l' r' hagree hl hr
  obtain ⟨⟨_, _, bits⟩, rfl, rfl, rfl⟩ := next_eq_ok hl
  obtain ⟨⟨_, _, bits'⟩, rfl, hleave, rfl⟩ := next_eq_ok hr
  have hanswer := hagree _ List.mem_cons_self
  cases hanswer
  cases hleave
  exact ⟨rfl, [_], rfl, rfl⟩

theorem settled_replayLeave (seed : U64) (t : Nat) (acc : List Nat × Nat) (idx : Nat) :
    Settled TraceEntry.answer (Recon.replayLeave seed t acc idx) := by
  obtain ⟨members, churn⟩ := acc
  simp only [Recon.replayLeave]
  cases members.findIdx? (· = idx) with
  | none => exact settled_pure _
  | some pos => exact (settled_next seed t true).bind fun _ ↦ settled_pure _

theorem settled_replayJoins (seed : U64) (t : Nat) (arrival : List Nat) :
    Settled TraceEntry.answer (Recon.replayJoins seed t arrival) := by
  cases arrival with
  | nil => exact settled_pure _
  | cons first arrivals =>
      refine Settled.foldlM (fun members candidate ↦ ?_) arrivals [first]
      exact (settled_next seed t false).bind fun _ ↦ settled_pure _

variable [Zero F] [NatCast F] [Add F] [Div F]

theorem settled_replayTasks (inst : WorkflowInstance) :
    Settled TraceEntry.answer
      (Recon.replayTasks inst : EStateM ReconError (List TraceEntry) (Recon.Progress F)) := by
  refine Settled.foldlM (fun progress task ↦ ?_) _ _
  refine (settled_replayJoins inst.seed task.2 task.1.arrival).bind fun members ↦ ?_
  exact (Settled.foldlM (settled_replayLeave inst.seed task.2) _ _).bind fun _ ↦ settled_pure _

end Settled

/-! ## What is read is written by a policy that follows the answers -/

section Follows

variable {toBits : F → U64} {seed : U64} {t : Nat} {whole : List TraceEntry}

/-- The script has the answers that are still to be read, and the others have been written. -/
def Fits (toBits : F → U64) (whole : List TraceEntry)
    (state : List (Decision F) × List TraceEntry) (rest : List TraceEntry) : Prop :=
  state.2 ++ rest = whole ∧
    state.1.map (fun decision ↦ (decision.act, toBits decision.score)) =
      rest.map TraceEntry.answer

theorem follows_record (leave : Bool) :
    Follows (Fits toBits whole) (fun decision act ↦ decision.act = act)
      (call (TracedPolicy.record toBits leave Scripted.answer)) (Recon.next seed t leave) := by
  rintro ⟨script, entries⟩ rest act rest' ⟨hwhole, hscript⟩ hread
  obtain ⟨⟨_, _, bits⟩, rfl, rfl, rfl⟩ := next_eq_ok hread
  cases script with
  | nil => cases hscript
  | cons decision script =>
      obtain ⟨hanswer, hanswers⟩ := List.cons.inj hscript
      cases hanswer
      refine ⟨decision, (script, _), rfl, ⟨?_, hanswers⟩, rfl⟩
      rw [← hwhole, List.append_assoc]
      rfl

/-- What cannot panic is passed over. -/
theorem follows_unwrap {P : σ → List TraceEntry → Prop} {x : Option α} {a : α} (hx : x = some a)
    (s : σ) (rest : List TraceEntry) (h : P s rest) : ∃ s', unwrap x s = .ok a s' ∧ P s' rest :=
  ⟨s, unwrap_eq_ok.mpr ⟨hx, rfl⟩, h⟩

variable {agents : List CapabilityAgent} {ctx : DecisionContext}

/-- Agents of the pool have views. -/
theorem exists_views {members : List Nat} (h : ∀ i ∈ members, i < agents.length) :
    ∃ coalition, members.mapM (agents[·]?) = some coalition :=
  exists_mapM fun i hi ↦ ⟨_, List.getElem?_eq_getElem (h i hi)⟩

/-- Members of the pool on both sides, and the same. -/
def SameMembers (agents : List CapabilityAgent) (members members' : List Nat) : Prop :=
  members = members' ∧ ∀ i ∈ members, i < agents.length

theorem follows_askJoin {members members' : List Nat} {candidate : Nat}
    (hcandidate : candidate < agents.length) (h : SameMembers agents members members') :
    Follows (Fits toBits whole) (SameMembers agents)
      (askJoin (TracedPolicy.new toBits Scripted.policy) agents ctx members candidate)
      (Recon.replayJoin seed t members' candidate) := by
  obtain ⟨rfl, hmembers⟩ := h
  obtain ⟨coalition, hviews⟩ := exists_views hmembers
  refine Follows.silent_bind (follows_unwrap hviews) ?_
  refine Follows.silent_bind (follows_unwrap (List.getElem?_eq_getElem hcandidate)) ?_
  refine (follows_record false).bind fun decision act hact ↦ follows_pure ⟨by rw [hact], ?_⟩
  split
  · intro i hi
    rcases List.mem_append.mp hi with hi | hi
    · exact hmembers i hi
    · rw [List.mem_singleton.mp hi]
      exact hcandidate
  · exact hmembers

theorem follows_joins {arrival : List Nat} (h : ∀ i ∈ arrival, i < agents.length) :
    Follows (Fits toBits whole) (SameMembers agents)
      (joins (TracedPolicy.new toBits Scripted.policy) agents ctx arrival)
      (Recon.replayJoins seed t arrival) := by
  cases arrival with
  | nil => exact follows_pure ⟨rfl, fun i hi ↦ nomatch hi⟩
  | cons first arrivals =>
      refine Follows.foldlM ?_ ⟨rfl, ?_⟩
      · intro candidate hc members members' hmembers
        exact follows_askJoin (h candidate (List.mem_cons_of_mem first hc)) hmembers
      · intro i hi
        rw [List.mem_singleton.mp hi]
        exact h first List.mem_cons_self

/-- The same members of the pool, and the same number of those who left. -/
def SameAcc (agents : List CapabilityAgent) (acc acc' : List Nat × Nat) : Prop :=
  SameMembers agents acc.1 acc'.1 ∧ acc.2 = acc'.2

theorem follows_askLeave {acc acc' : List Nat × Nat} {idx : Nat} (hidx : idx < agents.length)
    (h : SameAcc agents acc acc') :
    Follows (Fits toBits whole) (SameAcc agents)
      (askLeave (TracedPolicy.new toBits Scripted.policy) agents ctx acc idx)
      (Recon.replayLeave seed t acc' idx) := by
  obtain ⟨members, churn⟩ := acc
  obtain ⟨members', churn'⟩ := acc'
  obtain ⟨⟨hsame, hmembers⟩, hchurn⟩ := h
  cases hsame
  cases hchurn
  simp only [askLeave, Recon.replayLeave]
  cases members.findIdx? (· = idx) with
  | none => exact follows_pure ⟨⟨rfl, hmembers⟩, rfl⟩
  | some pos =>
      obtain ⟨coalition, hviews⟩ := exists_views hmembers
      refine Follows.silent_bind (follows_unwrap hviews) ?_
      refine Follows.silent_bind (follows_unwrap (List.getElem?_eq_getElem hidx)) ?_
      refine (follows_record true).bind fun decision act hact ↦ follows_pure ?_
      rw [hact]
      refine ⟨⟨rfl, ?_⟩, rfl⟩
      split
      · exact fun i hi ↦ hmembers i (List.mem_of_mem_eraseIdx hi)
      · exact hmembers

theorem follows_leaves {arrival members members' : List Nat} {churn : Nat}
    (harrival : ∀ i ∈ arrival, i < agents.length) (h : SameMembers agents members members') :
    Follows (Fits toBits whole) (SameAcc agents)
      (leaves (TracedPolicy.new toBits Scripted.policy) agents ctx arrival members churn)
      (arrival.foldlM (Recon.replayLeave seed t) (members', churn)) := by
  refine Follows.foldlM ?_ ⟨h, rfl⟩
  intro idx hi acc acc' hacc
  exact follows_askLeave (harrival idx hi) hacc

/-- A coalition from the pool is scored. -/
theorem exists_scoreTask [Zero F] [NatCast F] [Add F] [Div F] {inst : WorkflowInstance}
    {performance : Option (List (List Bool))} {task : WorkflowTask} {members : List Nat}
    (h : ∀ i ∈ members, i < inst.agents.length) (churn : Nat) (tally : Tally F) :
    ∃ tally', scoreTask inst performance t task members churn tally = some tally' := by
  obtain ⟨covered, hcovered⟩ := exists_countM
    fun step (_ : step ∈ task.demand.distinct) ↦ exists_stepCovered h step
  rw [scoreTask, hcovered]
  cases performance with
  | none => exact ⟨_, rfl⟩
  | some rows => exact ⟨_, rfl⟩

/-- The harness can signal the outcome of a task: there is an entry for each agent in the row
it reads, and no tag beyond the bits of a mask. -/
def Signals (inst : WorkflowInstance) (signal : OutcomeSignal)
    (performance : Option (List (List Bool))) (t : Nat) (task : WorkflowTask) : Prop :=
  signal = .performance →
    task.tags.length ≤ 32 ∧ (performanceRow performance t).length = inst.agents.length

/-- A draw in shape has a row for each task, with an entry for each agent. -/
theorem signals_of_performanceRows {inst : WorkflowInstance} {signal : OutcomeSignal}
    {rows : Option (List (List Bool))} (hrows : performanceRows inst signal = .ok rows)
    (htags : signal = .performance → ∀ task ∈ inst.tasks, task.tags.length ≤ 32) :
    ∀ task ∈ inst.tasks.zipIdx, Signals inst signal inst.performance task.2 task.1 := by
  intro task htask hsignal
  obtain ⟨rfl, hneeds, hshape⟩ := performanceRows_eq_ok hrows
  refine ⟨htags hsignal task.1 (List.fst_mem_of_mem_zipIdx htask), ?_⟩
  obtain ⟨table, htable⟩ := Option.isSome_iff_exists.mp (hneeds (by rw [hsignal]; rfl))
  obtain ⟨hlength, hrow⟩ := hshape table htable
  have hlt : task.2 < table.length := hlength ▸ List.snd_lt_of_mem_zipIdx htask
  rw [htable, performanceRow, Option.bind_some, List.getElem?_eq_getElem hlt, Option.getD_some]
  exact hrow _ (List.getElem_mem hlt)

theorem exists_perBit {inst : WorkflowInstance} {signal : OutcomeSignal}
    {performance : Option (List (List Bool))} {task : WorkflowTask} {members : List Nat}
    (h : ∀ i ∈ members, i < inst.agents.length)
    (hsignals : Signals inst signal performance t task) :
    ∃ bits, perBit inst signal performance t task members = some bits := by
  cases signal with
  | roleCoverage =>
      refine exists_foldlM (fun perBit step _ ↦ ?_) _
      dsimp only
      split
      · obtain ⟨covered, hcovered⟩ := exists_stepCovered h step
        rw [hcovered]
        exact ⟨_, rfl⟩
      · exact ⟨_, rfl⟩
  | performance =>
      obtain ⟨htags, hrow⟩ := hsignals rfl
      refine exists_mapM fun b hb ↦ exists_anyM fun i hi ↦ ?_
      rw [List.getElem?_eq_getElem (h i hi), Option.bind_eq_bind, Option.bind_some,
        if_pos (Nat.lt_of_lt_of_le (List.mem_range.mp hb) htags)]
      split
      · exact ⟨_, List.getElem?_eq_getElem (hrow ▸ h i hi)⟩
      · exact ⟨false, rfl⟩
  | both => exact ⟨_, rfl⟩

theorem exists_taskMemberOutcomes {members : List Nat} (h : ∀ i ∈ members, i < agents.length)
    (rows : Option (List (List Bool))) :
    ∃ outcomes, taskMemberOutcomes agents members rows t = some outcomes :=
  exists_mapM fun i hi ↦ by
    rw [List.getElem?_eq_getElem (h i hi)]
    exact ⟨_, rfl⟩

variable [Zero F] [NatCast F] [Add F] [Div F]
variable {inst : WorkflowInstance} {signal : OutcomeSignal}

/-- One task. -/
theorem follows_runTask {task : WorkflowTask × Nat}
    (harrival : ∀ i ∈ task.1.arrival, i < inst.agents.length)
    (hsignals : Signals inst signal inst.performance task.2 task.1) {tally : Tally F}
    {progress : Recon.Progress F} (h : Matches inst tally progress) :
    Follows (Fits toBits whole) (Matches inst)
      (runTask (TracedPolicy.new toBits Scripted.policy) inst signal inst.performance tally task)
      (Recon.replayTask inst progress task) := by
  obtain ⟨task, t⟩ := task
  refine Follows.silent_bind (fun s _ hs ↦ ⟨s, rfl, hs⟩) ?_
  refine (follows_joins harrival).bind fun members members' hmembers ↦ ?_
  rw [← h.churn]
  refine (follows_leaves harrival hmembers).bind fun acc acc' hacc ↦ ?_
  obtain ⟨members, churn⟩ := acc
  obtain ⟨_, _⟩ := acc'
  obtain ⟨⟨hsame, hpool⟩, hchurn⟩ := hacc
  cases hsame
  cases hchurn
  obtain ⟨tally', hscore⟩ : ∃ tally',
      scoreTask inst inst.performance t task members churn tally = some tally' :=
    exists_scoreTask hpool churn tally
  obtain ⟨bits, hbits⟩ := exists_perBit hpool hsignals
  obtain ⟨outcomes, houtcomes⟩ := exists_taskMemberOutcomes (t := t) hpool inst.performance
  refine Follows.silent_bind (follows_unwrap hscore) ?_
  refine Follows.silent_bind (follows_unwrap hbits) ?_
  refine Follows.silent_bind (follows_unwrap houtcomes) ?_
  refine Follows.silent_bind (fun s _ hs ↦ ⟨s, rfl, hs⟩) ?_
  exact follows_pure (h.scoreTask hscore)

end Follows

/-! ## Agreement -/

section Agreement

variable [Zero F] [NatCast F] [Add F] [Mul F] [Div F]
variable {toBits : F → U64} {inst : WorkflowInstance} {signal : OutcomeSignal}

/-- A trace is reconstructed if it is read to its end. -/
theorem reconstruct_eq_ok {trace : List TraceEntry} {recon : Recon F} :
    reconstruct inst trace = .ok recon ↔
      ∃ progress : Recon.Progress F, Recon.replayTasks inst trace = .ok progress [] ∧
        .ofProgress inst progress = recon := by
  unfold reconstruct
  generalize (Recon.replayTasks inst trace : EStateM.Result _ _ (Recon.Progress F)) = replayed
  cases replayed with
  | error e left => simp
  | ok progress left =>
      cases left with
      | nil => simp
      | cons entry left => simp

/-- A run has a result if the draw is in shape and nothing panics. -/
theorem run_eq_ok {τ : Type} {policy : Policy τ F} {s s' : τ} {result : WorkflowResult F} :
    runWorkflowInstance policy inst signal s = .ok result s' ↔
      ∃ performance tally, performanceRows inst signal = .ok performance ∧
        inst.tasks.zipIdx.foldlM (runTask policy inst signal performance)
          { successCount := 0, covEffSum := 0, performedSuccessCount := 0,
            performedCovEffSum := 0, churn := 0 } s = .ok tally s' ∧
        .ofTally inst performance tally = result := by
  constructor
  · intro h
    obtain ⟨performance, _, hlook, h⟩ := bind_eq_ok.mp h
    obtain ⟨hrows, rfl⟩ := look_eq_ok.mp hlook
    obtain ⟨tally, _, hloop, h⟩ := bind_eq_ok.mp h
    obtain ⟨hresult, rfl⟩ := pure_eq_ok.mp h
    refine ⟨performance, tally, ?_, hloop, hresult⟩
    cases hrows' : performanceRows inst signal with
    | ok rows =>
        rw [hrows'] at hrows
        cases hrows
        rfl
    | error e =>
        rw [hrows'] at hrows
        cases hrows
  · rintro ⟨performance, tally, hrows, hloop, hresult⟩
    refine bind_eq_ok.mpr ⟨performance, s, look_eq_ok.mpr ⟨?_, rfl⟩, ?_⟩
    · rw [hrows]
      rfl
    · exact bind_eq_ok.mpr ⟨tally, s', hloop, pure_eq_ok.mpr ⟨hresult, rfl⟩⟩

/-- The same sums make the same metrics. -/
theorem Matches.metrics {tally : Tally F} {progress : Recon.Progress F}
    (h : Matches inst tally progress) :
    (Recon.ofProgress inst progress).churn =
        (WorkflowResult.ofTally inst inst.performance tally).churn ∧
      (Recon.ofProgress inst progress).primary =
        (WorkflowResult.ofTally inst inst.performance tally).primary ∧
      (Recon.ofProgress inst progress).performanceScored =
        (WorkflowResult.ofTally inst inst.performance tally).performanceScored := by
  refine ⟨h.churn.symm, ?_, ?_⟩
  · rw [Recon.ofProgress, WorkflowResult.ofTally, h.successCount, h.covEffSum]
  · cases hperformance : inst.performance with
    | none => simp only [Recon.ofProgress, WorkflowResult.ofTally, hperformance, Option.map_none]
    | some rows =>
        have hsums := h.performed (by rw [hperformance]; rfl)
        simp only [Recon.ofProgress, WorkflowResult.ofTally, hperformance, Option.map_some, hsums]

/-- The whole run is read back. -/
theorem read_of_run {policy : Policy σ F} {s : σ} {s' : σ × List TraceEntry}
    {result : WorkflowResult F}
    (h : runWorkflowInstance (TracedPolicy.new toBits policy) inst signal (s, []) =
      .ok result s') :
    ∃ (tally : Tally F) (progress : Recon.Progress F), Matches inst tally progress ∧
      Recon.replayTasks inst s'.2 = .ok progress [] ∧
      .ofTally inst inst.performance tally = result := by
  obtain ⟨performance, tally, hrows, hloop, hresult⟩ := run_eq_ok.mp h
  obtain ⟨rfl, -⟩ := performanceRows_eq_ok hrows
  have hread := Readable.foldlM (fun task (_ : task ∈ inst.tasks.zipIdx) tally progress
    (hmatches : Matches inst tally progress) ↦
      (readable_runTask task hmatches : Readable Prod.snd (Matches inst)
        (runTask (TracedPolicy.new toBits policy) inst signal inst.performance tally task)
        (Recon.replayTask inst progress task)))
    matches_start
  obtain ⟨new, progress, hnew, hmatches, hreplay⟩ := hread _ _ _ hloop
  refine ⟨tally, progress, hmatches, ?_, hresult⟩
  rw [hnew, List.nil_append, ← List.append_nil new]
  exact hreplay []

/-- A trace that is read is written by the policy that follows it. -/
theorem run_of_read (hvalid : inst.ValidArrivals)
    (hsignals : ∀ task ∈ inst.tasks.zipIdx, Signals inst signal inst.performance task.2 task.1)
    {performance : Option (List (List Bool))}
    (hrows : performanceRows inst signal = .ok performance)
    {trace : List TraceEntry} {progress : Recon.Progress F}
    (hread : Recon.replayTasks inst trace = .ok progress []) {script : List (Decision F)}
    (hscript : script.map (fun decision ↦ (decision.act, toBits decision.score)) =
      trace.map TraceEntry.answer) :
    ∃ result, runWorkflowInstance (TracedPolicy.new toBits Scripted.policy) inst signal
      (script, []) = .ok result ([], trace) := by
  obtain ⟨rfl, -⟩ := performanceRows_eq_ok hrows
  have hfollows := Follows.foldlM (fun task (htask : task ∈ inst.tasks.zipIdx) tally progress
    (hmatches : Matches inst tally progress) ↦
      (follows_runTask (hvalid task.1 (List.fst_mem_of_mem_zipIdx htask)) (hsignals task htask)
        hmatches : Follows (Fits toBits trace) (Matches inst)
          (runTask (TracedPolicy.new toBits Scripted.policy) inst signal inst.performance tally
            task) (Recon.replayTask inst progress task)))
    matches_start
  obtain ⟨tally, ⟨left, entries⟩, hloop, ⟨hwhole, hleft⟩, -⟩ :=
    hfollows (script, []) trace progress [] ⟨List.nil_append _, hscript⟩ hread
  rw [List.append_nil] at hwhole
  rw [List.map_nil, List.map_eq_nil_iff] at hleft
  cases hwhole
  cases hleft
  exact ⟨_, run_eq_ok.mpr ⟨_, tally, hrows, hloop, rfl⟩⟩

/-- **Reconstruction agrees with the harness.**  For any instance whose arrivals are in the
pool: a run of any policy that ends with a result leaves a trace that is reconstructed, with
the same churn and the same scores.  And a trace that is reconstructed is the only one that
the harness leaves for its answers: it is the trace of any run whose policy gives these
answers, and the policy that follows them has such a run, with every signal that the instance
can be run with. -/
theorem reconstruct_agrees (toBits : F → U64) (inst : WorkflowInstance)
    (hvalid : inst.ValidArrivals) :
    (∀ (σ : Type) (policy : Policy σ F) (signal : OutcomeSignal) (s : σ) (result : WorkflowResult F)
        (s' : σ) (trace : List TraceEntry),
      runWorkflowInstance (TracedPolicy.new toBits policy) inst signal (s, []) =
        .ok result (s', trace) →
      ∃ recon : Recon F, reconstruct inst trace = .ok recon ∧ recon.churn = result.churn ∧
        recon.primary = result.primary ∧ recon.performanceScored = result.performanceScored) ∧
    ∀ (trace : List TraceEntry) (recon : Recon F), reconstruct inst trace = .ok recon →
      (∀ (σ : Type) (policy : Policy σ F) (signal : OutcomeSignal) (s : σ)
          (result : WorkflowResult F) (s' : σ) (asked : List TraceEntry),
        runWorkflowInstance (TracedPolicy.new toBits policy) inst signal (s, []) =
          .ok result (s', asked) →
        Agree TraceEntry.answer asked trace → asked = trace) ∧
      ∀ (signal : OutcomeSignal) (performance : Option (List (List Bool))),
        performanceRows inst signal = .ok performance →
        (signal = .performance → ∀ task ∈ inst.tasks, task.tags.length ≤ 32) →
        ∀ script : List (Decision F),
          script.map (fun decision ↦ (decision.act, toBits decision.score)) =
            trace.map TraceEntry.answer →
          ∃ result, runWorkflowInstance (TracedPolicy.new toBits Scripted.policy) inst signal
            (script, []) = .ok result ([], trace) := by
  constructor
  · intro σ policy signal s result s' trace hrun
    obtain ⟨tally, progress, hmatches, hread, rfl⟩ := read_of_run hrun
    exact ⟨_, reconstruct_eq_ok.mpr ⟨progress, hread, rfl⟩, hmatches.metrics⟩
  · intro trace recon hrecon
    obtain ⟨progress, hread, -⟩ := reconstruct_eq_ok.mp hrecon
    constructor
    · intro σ policy signal s result s' asked hrun hagree
      obtain ⟨tally, progress', -, hasked, -⟩ := read_of_run hrun
      obtain ⟨-, new, hnew, hnew'⟩ :=
        settled_replayTasks inst asked trace progress' progress [] [] hagree hasked hread
      rw [hnew, hnew']
    · intro signal performance hrows htags script hscript
      exact run_of_read hvalid (signals_of_performanceRows hrows htags) hrows hread hscript

end Agreement

/-! ## A run over two tasks -/

namespace Sample

/-- Two agents with a bit and a role each; the first task demands both steps, the second one
only that of the second agent, who does not perform on it. -/
def inst : WorkflowInstance where
  seed := 7
  agents := [⟨0, 1, 80⟩, ⟨1, 2, 70⟩]
  roles := [0, 1]
  tasks := [⟨[0, 1], [0, 1], ⟨[⟨0, 0⟩, ⟨1, 1⟩], by decide⟩⟩,
    ⟨[0, 1], [1, 0], ⟨[⟨1, 1⟩], by decide⟩⟩]
  performance := some [[true, true], [true, false]]

/-- The bits of the scores 0 and 1. -/
def toBits (score : ℚ) : U64 := if score = 1 then 0x3FF0000000000000 else 0

/-- The second agent joins the first one, who leaves, and nobody joins or leaves after that. -/
def script : List (Decision ℚ) := [⟨true, 1⟩, ⟨true, 1⟩, ⟨false, 0⟩, ⟨false, 0⟩, ⟨false, 0⟩]

def trace : List TraceEntry :=
  [⟨false, true, 0x3FF0000000000000⟩, ⟨true, true, 0x3FF0000000000000⟩, ⟨true, false, 0⟩,
    ⟨false, false, 0⟩, ⟨true, false, 0⟩]

def result : WorkflowResult ℚ where
  seed := 7
  n := 2
  successRate := 1 / 2
  meanCovEff := 3 / 4
  primary := 3 / 8
  churn := 1
  performanceScored := some ⟨0, 1 / 4, 0⟩

end Sample

/-- The run over the two tasks leaves the trace, which is reconstructed with its scores. -/
theorem the_sample_is_reconstructed :
    ∃ recon : Recon ℚ,
      runWorkflowInstance (TracedPolicy.new Sample.toBits Scripted.policy) Sample.inst .both
        (Sample.script, []) = .ok Sample.result ([], Sample.trace) ∧
      reconstruct Sample.inst Sample.trace = .ok recon ∧ recon.churn = 1 ∧
      recon.primary = 3 / 8 ∧ recon.performanceScored = some ⟨0, 1 / 4, 0⟩ := by
  have hvalid : Sample.inst.ValidArrivals := by
    unfold WorkflowInstance.ValidArrivals
    decide
  have hrun : runWorkflowInstance (TracedPolicy.new Sample.toBits Scripted.policy) Sample.inst .both
      (Sample.script, []) = .ok Sample.result ([], Sample.trace) := by
    have hcheck : outcome (runWorkflowInstance (TracedPolicy.new Sample.toBits Scripted.policy)
          Sample.inst .both (Sample.script, [])) = .ok Sample.result ∧
        finalState (runWorkflowInstance (TracedPolicy.new Sample.toBits Scripted.policy)
          Sample.inst .both (Sample.script, [])) = ([], Sample.trace) := by
      decide +kernel
    generalize runWorkflowInstance (TracedPolicy.new Sample.toBits Scripted.policy) Sample.inst
      .both (Sample.script, []) = run at hcheck ⊢
    cases run with
    | ok result s =>
        cases hcheck.1
        cases hcheck.2
        rfl
    | error e s => cases hcheck.1
  obtain ⟨recon, hrecon, hchurn, hprimary, hscored⟩ :=
    (reconstruct_agrees Sample.toBits Sample.inst hvalid).1 _ _ _ _ _ _ _ hrun
  exact ⟨recon, hrun, hrecon, hchurn, hprimary, hscored⟩

end Koalisi.Harness
