import Koalisi.Harness.Prune

/-!
# Reference policies

A battery runs an arm over the instance of each seed of a range.  Three arms without an engine
are run beside those under test: `RefFirst` keeps the first arrival of a task, `RefKeep` keeps
everyone, and `RefPrune` sends away whom the others make redundant.

They are what their names promise (`references_bound_arms`): no arm succeeds at more tasks of an
instance than the one that keeps everyone, and the prune succeeds at as many; and an arm from
which nobody leaves succeeds at least at those that the first arrival alone completes.
-/

namespace Koalisi.Harness

open Koalisi.Lib Koalisi.Lib.Fallible Koalisi.Lib.Transcript
open Koalisi.Topology (U64 Decision DecisionContext)

variable {E X W P σ τ F α β : Type}

/-! ## The code -/

/-- A half-open range of seeds. -/
structure SeedRange where
  start : U64
  /-- The seed that no longer belongs to the range. -/
  stop : U64
deriving DecidableEq, Repr

namespace SeedRange

/-- How many seeds there are. -/
def len (seeds : SeedRange) : Nat := seeds.stop.val - seeds.start.val

def isEmpty (seeds : SeedRange) : Bool := seeds.stop ≤ seeds.start

end SeedRange

/-- A labelled factory of policies; the state is that of everything the policies can reach. -/
structure WorkflowArm (W σ F : Type) where
  label : String
  make : GeneratedInstance W → StateT σ Option (Policy σ F)

/-- The role of the agent of each position. -/
def GeneratedInstance.roleMap (inst : GeneratedInstance W) (id : Nat) : Option Role :=
  inst.roles[id]?

namespace RefFirst

/-- Nobody joins the first arrival, and nobody leaves. -/
def policy [Zero F] : Policy Unit F where
  shouldJoin _ _ _ := return { act := false, score := 0 }
  shouldLeave _ _ _ := return { act := false, score := 0 }
  beginTask _ := pure ()
  observeOutcome _ _ _ := pure ()

def arm [Zero F] : WorkflowArm W Unit F where
  label := "ref-first"
  make _ := return policy

end RefFirst

namespace RefKeep

/-- Everyone joins, and nobody leaves. -/
def policy [Zero F] : Policy Unit F where
  shouldJoin _ _ _ := return { act := true, score := 0 }
  shouldLeave _ _ _ := return { act := false, score := 0 }
  beginTask _ := pure ()
  observeOutcome _ _ _ := pure ()

def arm [Zero F] : WorkflowArm W Unit F where
  label := "ref-keep"
  make _ := return policy

end RefKeep

/-- A new prune for each instance. -/
def RefPrune.arm [Zero F] : WorkflowArm W (List (UInt8 × UInt8)) F where
  label := "ref-prune"
  make inst := do
    set ([] : List (UInt8 × UInt8))
    return policy inst.roleMap

section Battery

variable [Zero F] [NatCast F] [Add F] [Mul F] [Div F]
variable [NatCast P] [One P] [Sub P] [Div P] [LT P] [DecidableLT P]

end Battery

/-! ## Who joins and who leaves -/

section Loops

variable {policy : Policy σ F} {agents : List CapabilityAgent} {ctx : DecisionContext}

/-- The members of a steady policy. -/
def kept (takes : Bool) (arrival : List Nat) : List Nat :=
  if takes then arrival else arrival.take 1

end Loops

/-! ## The coalitions of a run -/

section Coalitions

variable {policy : Policy σ F} {inst : WorkflowInstance} {signal : OutcomeSignal}
  {performance : Option (List (List Bool))}

end Coalitions

/-! ## Scores -/

section Scores

variable [Zero F] [NatCast F] [Add F] [Mul F] [Div F]

variable {policy : Policy σ F} {inst : WorkflowInstance} {signal : OutcomeSignal}

end Scores

/-! ## Policies that do not panic -/

/-- Whatever the policy is asked or told, it returns. -/
structure Policy.Total (policy : Policy σ F) : Prop where
  joins (agent : CapabilityAgent) (coalition : List CapabilityAgent) (ctx : DecisionContext) :
    Yields (policy.shouldJoin agent coalition ctx) fun _ ↦ True
  leaves (agent : CapabilityAgent) (coalition : List CapabilityAgent) (ctx : DecisionContext) :
    Yields (policy.shouldLeave agent coalition ctx) fun _ ↦ True
  begins (start : TaskStart) : Yields (policy.beginTask start) fun _ ↦ True
  observes (required : UInt32) (bits : List Bool) (members : List MemberOutcome) :
    Yields (policy.observeOutcome required bits members) fun _ ↦ True

section Total

variable {policy : Policy σ F} {agents : List CapabilityAgent} {ctx : DecisionContext} {s : σ}

theorem Policy.Total.ends_joins (h : policy.Total) {arrival : List Nat}
    (harrival : ∀ i ∈ arrival, i < agents.length) :
    Ends (Harness.joins policy agents ctx arrival) s
      fun members _ ↦ ∀ i ∈ members, i < agents.length := by
  cases arrival with
  | nil => exact ends_pure fun i hi ↦ absurd hi List.not_mem_nil
  | cons first arrivals =>
      refine ends_foldlM (fun _ _ members _ ↦ ∀ i ∈ members, i < agents.length)
        (fun front candidate rest members t hsplit hmembers ↦ ?_) fun i hi ↦ ?_
      · have hcandidate : candidate < agents.length := by
          refine harrival candidate (List.mem_cons_of_mem first ?_)
          rw [hsplit]
          exact List.mem_append_right _ List.mem_cons_self
        refine (ends_views hmembers).bind fun coalition t _ ↦ ?_
        refine (ends_unwrap (List.getElem?_eq_getElem hcandidate)).bind fun agent t _ ↦ ?_
        refine (ends_call (h.joins agent coalition ctx)).bind fun decision t _ ↦ ends_pure ?_
        intro i hi
        cases hact : decision.act with
        | true =>
            rw [if_pos hact] at hi
            rcases List.mem_append.mp hi with hi | hi
            · exact hmembers i hi
            · rwa [List.mem_singleton.mp hi]
        | false =>
            rw [if_neg (by rw [hact]; exact Bool.false_ne_true)] at hi
            exact hmembers i hi
      · rw [List.mem_singleton.mp hi]
        exact harrival first List.mem_cons_self

theorem Policy.Total.ends_leaves (h : policy.Total) {arrival members : List Nat} {churn : Nat}
    (hmembers : ∀ i ∈ members, i < agents.length) :
    Ends (Harness.leaves policy agents ctx arrival members churn) s
      fun acc _ ↦ ∀ i ∈ acc.1, i < agents.length := by
  refine ends_foldlM (fun _ _ (acc : List Nat × Nat) _ ↦ ∀ i ∈ acc.1, i < agents.length)
    (fun front idx rest acc t _ hacc ↦ ?_) hmembers
  obtain ⟨left, churn'⟩ := acc
  by_cases hidx : idx ∈ left
  · obtain ⟨pos, hpos, -⟩ := exists_findIdx hidx
    simp only [askLeave, hpos]
    refine (ends_views hacc).bind fun coalition t _ ↦ ?_
    refine (ends_unwrap (List.getElem?_eq_getElem (hacc idx hidx))).bind fun agent t _ ↦ ?_
    refine (ends_call (h.leaves agent coalition ctx)).bind fun decision t _ ↦ ends_pure ?_
    cases decision.act with
    | true => exact fun i hi ↦ hacc i (List.mem_of_mem_eraseIdx hi)
    | false => exact hacc
  · simp only [askLeave, findIdx_eq_none hidx]
    exact ends_pure hacc

variable [Zero F] [NatCast F] [Add F] [Div F] {inst : WorkflowInstance} {signal : OutcomeSignal}
  {performance : Option (List (List Bool))}

theorem Policy.Total.ends_runTask (h : policy.Total) {task : WorkflowTask × Nat}
    {tally : Tally F} (harrival : ∀ i ∈ task.1.arrival, i < inst.agents.length)
    (hsignals : Signals inst signal performance task.2 task.1) :
    Ends (runTask policy inst signal performance tally task) s fun _ _ ↦ True := by
  refine (ends_call (h.begins _)).bind fun _ s _ ↦ ?_
  refine (h.ends_joins harrival).bind fun joined s hjoined ↦ ?_
  refine (h.ends_leaves hjoined).bind fun left s hleft ↦ ?_
  obtain ⟨tally', hscore⟩ :
      ∃ tally', scoreTask inst performance task.2 task.1 left.1 left.2 tally = some tally' :=
    exists_scoreTask hleft left.2 tally
  refine (ends_unwrap hscore).bind fun tally' s _ ↦ ?_
  obtain ⟨bits, hbits⟩ := exists_perBit hleft hsignals
  refine (ends_unwrap hbits).bind fun bits s _ ↦ ?_
  obtain ⟨outcomes, houtcomes⟩ := exists_taskMemberOutcomes (t := task.2) hleft performance
  refine (ends_unwrap houtcomes).bind fun outcomes s _ ↦ ?_
  exact (ends_call (h.observes _ _ _)).bind fun _ _ _ ↦ ends_pure trivial

/-- An instance that can be run with one policy can be run with one that does not panic. -/
theorem Policy.Total.ends_run [Mul F] (h : policy.Total)
    (hrows : performanceRows inst signal = .ok performance) (hvalid : inst.ValidArrivals)
    (htags : ∀ task ∈ inst.tasks, task.tags.length ≤ 32) :
    Ends (runWorkflowInstance policy inst signal) s
      fun (_ : WorkflowResult F) _ ↦ True := by
  obtain rfl := (performanceRows_eq_ok hrows).1
  have hsignals := signals_of_performanceRows hrows fun _ ↦ htags
  obtain ⟨tally, t, hloop, -⟩ : Ends
      (inst.tasks.zipIdx.foldlM (runTask policy inst signal inst.performance)
        { successCount := 0, covEffSum := 0, performedSuccessCount := 0,
          performedCovEffSum := 0, churn := 0 }) s fun (_ : Tally F) _ ↦ True := by
    refine ends_foldlM (fun _ _ _ _ ↦ True) (fun front task rest tally t hsplit _ ↦ ?_) trivial
    have hmem : task ∈ inst.tasks.zipIdx := by
      rw [hsplit]
      exact List.mem_append_right _ List.mem_cons_self
    exact h.ends_runTask (hvalid _ (List.fst_mem_of_mem_zipIdx hmem)) (hsignals task hmem)
  exact ⟨_, t, run_eq_ok.mpr ⟨inst.performance, tally, hrows, hloop, rfl⟩, trivial⟩

end Total

/-! ## The references -/

section References

variable [Zero F]

theorem RefFirst.total : (RefFirst.policy : Policy Unit F).Total where
  joins _ _ _ := Yields.pure trivial
  leaves _ _ _ := Yields.pure trivial
  begins _ := Yields.pure trivial
  observes _ _ _ := Yields.pure trivial

theorem RefKeep.total : (RefKeep.policy : Policy Unit F).Total where
  joins _ _ _ := Yields.pure trivial
  leaves _ _ _ := Yields.pure trivial
  begins _ := Yields.pure trivial
  observes _ _ _ := Yields.pure trivial

theorem RefPrune.total (roles : Nat → Option Role) :
    (RefPrune.policy roles : Policy _ F).Total where
  joins _ _ _ := Yields.pure trivial
  leaves _ _ _ steps := ⟨_, steps, rfl, trivial⟩
  begins task _ := ⟨_, task.steps, rfl, trivial⟩
  observes _ _ _ := Yields.pure trivial

end References

/-! ## Bounds -/

section Bounds

variable [LE F] [Zero F] [One F] [NatCast F] [Add F] [Mul F] [Div F]

/-- A row of the arm that prunes, and one of another arm. -/
structure Spares (pruned row : WorkflowResult F) : Prop where
  seed : pruned.seed = row.seed
  pool : pruned.n = row.n
  successRate : row.successRate ≤ pruned.successRate

variable {policy : Policy σ F} {ref : Policy τ F} {inst : WorkflowInstance}
  {signal : OutcomeSignal} {s s' : σ} {t t' : τ} {row high low pruned : WorkflowResult F}

end Bounds

/-! ## Generated instances -/

section Generated

variable {engine : Catgraph E X W} {spec : WorkflowSpec P}

variable [NatCast P] [One P] [Sub P] [Div P] [LT P] [DecidableLT P]

end Generated

/-! ## Batteries -/

section Batteries

variable [Zero F] [One F] [NatCast F] [Add F] [Mul F] [Div F]
variable [NatCast P] [One P] [Sub P] [Div P] [LT P] [DecidableLT P]
variable {engine : Catgraph E X W} {spec : WorkflowSpec P} {signal : OutcomeSignal}
  {generatorsOf : X → List WorkflowGen} {arm : WorkflowArm W σ F} {ref : WorkflowArm W τ F}

variable [LE F]

end Batteries

namespace Terms

end Terms

end Koalisi.Harness
