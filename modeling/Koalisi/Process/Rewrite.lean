import Koalisi.Process.Demands

/-!
# Optimizing a workflow, and checking the optimization

The engine searches for a cheaper writing of a workflow and records the rewrites that lead to it.
An outcome that is declared is not trusted: its rewrites are replayed, and where they lead must be
what was declared.  The search and the replay are the engine's; the check is made here.

Rewrites are accounted for exactly.  A derivation takes from a workflow what its rules take, and
puts what they put, so every cost changes by the difference, and one occurrence of a step goes
away with each rewrite (`Balances`).  An outcome that passes the check is derived in this way from
the workflow that it is declared for (`verified_outcome_balances`).
-/

namespace Koalisi.Process

open Koalisi.Harness Koalisi.Lib Koalisi.Lib.Fallible

variable {E X W R : Type}

/-! ## Accounts of a derivation -/

/-- A rewrite of generators by the rule at an index. -/
def ContentStep (engine : RewriteEngine E X W R) (rules : List R) (i : Nat)
    (content content' : List WorkflowGen) : Prop :=
  ∃ rule, rules[i]? = some rule ∧ (engine.replacement rule).Rewrites content content'

/-- What rewrites by rules with these labels do to the generators of a workflow. -/
structure Balances (engine : RewriteEngine E X W R) (applied : List LabelledRule)
    (content content' : List WorkflowGen) : Prop where
  /-- Every cost changes by what the rules take and put. -/
  priced (perGen : WorkflowGen → Nat) : engine.costOf content' perGen +
      (applied.map fun label ↦ engine.costOf label.replacement.left perGen).sum =
    engine.costOf content perGen +
      (applied.map fun label ↦ engine.costOf label.replacement.right perGen).sum
  /-- Each rewrite takes two steps, and puts one. -/
  multiplicity (s : Step) : (CountedDemand.ofContent content').multiplicity s +
      (applied.map fun label ↦ [label.sources.1, label.sources.2].count s).sum =
    (CountedDemand.ofContent content).multiplicity s +
      (applied.map fun label ↦ [label.target].count s).sum
  total : (CountedDemand.ofContent content).total =
    (CountedDemand.ofContent content').total + applied.length
  /-- An absorption takes two spiders besides. -/
  uniform : engine.costOf content uniformCost = engine.costOf content' uniformCost +
    applied.length + 2 * applied.countP (·.schema = .spiderAbsorption)
  roles (role : Role) : (∃ s ∈ (CountedDemand.ofContent content').distinct, s.role = role) ↔
    ∃ s ∈ (CountedDemand.ofContent content).distinct, s.role = role
  /-- Without a fusion, the same steps are demanded, and staffing them costs no more. -/
  unfused : (∀ label ∈ applied, label.schema ≠ .fusion) →
    (CountedDemand.ofContent content').distinct = (CountedDemand.ofContent content).distinct ∧
      ∀ table, engine.costOf content' (staffingPrice table) ≤
        engine.costOf content (staffingPrice table)

variable {engine : RewriteEngine E X W R} {generatorsOf : X → List WorkflowGen}
variable {applied : List LabelledRule} {content content' : List WorkflowGen}

theorem multiplicity_ofContent (content : List WorkflowGen) (s : Step) :
    (CountedDemand.ofContent content).multiplicity s = (userSteps content).count s := by
  rw [CountedDemand.multiplicity_eq, CountedDemand.occurrences_ofContent]

theorem total_ofContent (content : List WorkflowGen) :
    (CountedDemand.ofContent content).total = (userSteps content).length := by
  rw [CountedDemand.total, CountedDemand.occurrences_ofContent]

theorem mem_distinct_ofContent {content : List WorkflowGen} {s : Step} :
    s ∈ (CountedDemand.ofContent content).distinct ↔ s ∈ userSteps content := by
  rw [CountedDemand.mem_distinct, CountedDemand.occurrences_ofContent]

namespace LabelledRule

/-- Rewriting by the rule with a label. -/
abbrev Rewrites (label : LabelledRule) (content content' : List WorkflowGen) : Prop :=
  label.replacement.Rewrites content content'

theorem length_left (label : LabelledRule) : label.replacement.left.length =
    2 + if label.schema = .spiderAbsorption then 2 else 0 := by
  obtain ⟨schema, sources, target⟩ := label
  cases schema with
  | idempotence => rfl
  | fusion => rfl
  | spiderAbsorption => rfl

/-- Two steps are taken, and one is put. -/
theorem Rewrites.userSteps {label : LabelledRule} (h : label.Rewrites content content') :
    (Replacement.mk [label.sources.1, label.sources.2] [label.target]).Rewrites
      (userSteps content) (userSteps content') := by
  rw [← label.userSteps_left]
  exact h.filterMap _

/-- The steps that are taken are of the role of the one that is put. -/
theorem mem_roles_iff {bits roles : UInt8} (label : LabelledRule)
    (hlabel : label.WellFormed bits roles) (role : Role) :
    role ∈ label.replacement.right.filterMap roleOf ↔
      role ∈ label.replacement.left.filterMap roleOf := by
  rw [mem_filterMap_roleOf, mem_filterMap_roleOf, userSteps_left]
  change (∃ s ∈ [label.target], _) ↔ _
  simp only [List.mem_singleton, List.mem_pair, exists_eq_left, or_and_right, exists_or,
    hlabel.firstRole, hlabel.secondRole, or_self]

end LabelledRule

theorem sum_length_left (applied : List LabelledRule) :
    (applied.map fun label ↦ label.replacement.left.length).sum =
      2 * applied.length + 2 * applied.countP (·.schema = .spiderAbsorption) := by
  induction applied with
  | nil => rfl
  | cons label applied ih =>
      rw [List.map_cons, List.sum_cons, ih, label.length_left, List.length_cons, List.countP_cons]
      simp only [decide_eq_true_eq]
      split <;> omega

/-- The rewrites of a derivation make up for the change of each cost, and of each multiplicity. -/
theorem balances_of_derives
    (hcost : ∀ content perGen, engine.costOf content perGen = (content.map perGen).sum)
    {bits roles : UInt8} (hwf : ∀ label ∈ applied, label.WellFormed bits roles)
    (h : Derives LabelledRule.Rewrites content applied content') :
    Balances engine applied content content' := by
  have hpriced (perGen : WorkflowGen → Nat) : engine.costOf content' perGen +
        (applied.map fun label ↦ engine.costOf label.replacement.left perGen).sum =
      engine.costOf content perGen +
        (applied.map fun label ↦ engine.costOf label.replacement.right perGen).sum := by
    refine h.balance (engine.costOf · perGen) fun label l l' hstep ↦ ?_
    simp only [hcost]
    exact hstep.sum_add perGen
  refine
    { priced := hpriced
      multiplicity := fun s ↦ ?_
      total := ?_
      uniform := ?_
      roles := fun role ↦ ?_
      unfused := fun hschema ↦ ⟨?_, fun table ↦ ?_⟩ }
  · rw [multiplicity_ofContent, multiplicity_ofContent]
    exact h.balance (fun content ↦ (userSteps content).count s)
      fun label l l' hstep ↦ hstep.userSteps.count_add s
  · have hlength := h.balance (fun content ↦ (userSteps content).length)
      fun label l l' hstep ↦ hstep.userSteps.length_add
    simp only [List.length_cons, List.length_nil, List.map_const', List.sum_replicate_nat]
      at hlength
    rw [total_ofContent, total_ofContent]
    omega
  · have hone (content : List WorkflowGen) :
        engine.costOf content uniformCost = content.length := by
      rw [hcost]
      change (content.map fun _ ↦ 1).sum = _
      rw [List.map_const', List.sum_replicate_nat, Nat.mul_one]
    have hprice := hpriced uniformCost
    simp only [hone, sum_length_left] at hprice
    have hright : (applied.map fun label ↦ label.replacement.right.length).sum =
        applied.length := by
      rw [List.map_congr_left fun label _ ↦ (rfl : label.replacement.right.length = 1),
        List.map_const', List.sum_replicate_nat, Nat.mul_one]
    rw [hone, hone]
    omega
  · have hroles := h.unchanged (f := fun content role ↦ ∃ s ∈ userSteps content, s.role = role)
      fun label hlabel l l' hstep ↦ by
        funext role
        rw [← mem_filterMap_roleOf, ← mem_filterMap_roleOf]
        exact propext (hstep.mem_filterMap_iff (label.mem_roles_iff (hwf label hlabel)) role)
    simp only [mem_distinct_ofContent]
    exact iff_of_eq (congrFun hroles role)
  · refine CountedDemand.distinct_eq_of_mem_iff fun s ↦ ?_
    have hsteps := h.unchanged (f := fun content s ↦ s ∈ userSteps content)
      fun label hlabel l l' hstep ↦ by
        funext s
        refine propext (hstep.mem_filterMap_iff (fun s ↦ ?_) s)
        change s ∈ [label.target] ↔ s ∈ userSteps label.replacement.left
        rw [label.userSteps_left, (hwf label hlabel).same (hschema label hlabel),
          List.mem_singleton, List.mem_pair, or_self]
    rw [CountedDemand.occurrences_ofContent, CountedDemand.occurrences_ofContent]
    exact iff_of_eq (congrFun hsteps s)
  · have hsides : (applied.map fun label ↦
          engine.costOf label.replacement.right (staffingPrice table)).sum ≤
        (applied.map fun label ↦
          engine.costOf label.replacement.left (staffingPrice table)).sum := by
      refine List.sum_le_sum fun label hlabel ↦ ?_
      rw [hcost, hcost]
      exact label.staffingPrice_le table ((hwf label hlabel).same (hschema label hlabel))
    have hprice := hpriced (staffingPrice table)
    omega

/-- A derivation under the theory uses the labels of its rules. -/
theorem exists_labels_of_derives (hengine : engine.Lawful generatorsOf) {bits roles : UInt8}
    {rules : List R} (hrules : ruleTheory engine bits roles = .ok rules) {indices : List Nat}
    (h : Derives (ContentStep engine rules) content indices content') :
    ∃ labels applied, ruleLabels engine bits roles = .ok labels ∧
      indices.map (labels[·]?) = applied.map some ∧ Balances engine applied content content' := by
  obtain ⟨labels, hlabels, hbuilt⟩ := ruleLabels_of_ruleTheory hrules
  have hwf := wellFormed_of_ruleLabels hlabels
  have hstep (i : Nat) (l l' : List WorkflowGen) (h : ContentStep engine rules i l l') :
      ∃ label, labels[i]? = some label ∧ label.Rewrites l l' := by
    obtain ⟨rule, hrule, h⟩ := h
    obtain ⟨hi, rfl⟩ := List.getElem?_eq_some_iff.mp hrule
    have hi' : i < labels.length := hbuilt.length_eq ▸ hi
    have hdescribed := LabelledRule.describes_of_build hengine
      (hwf _ (List.getElem_mem hi')) (hbuilt.get hi' hi)
    exact ⟨_, List.getElem?_eq_getElem hi', h.of_perm hdescribed.left hdescribed.right⟩
  obtain ⟨applied, hnames, hderives⟩ := h.relabel hstep
  have happlied : indices.map (labels[·]?) = applied.map some := by
    rw [← List.forall₂_eq_eq_eq, List.forall₂_map_left_iff, List.forall₂_map_right_iff]
    exact hnames
  refine ⟨labels, applied, hlabels, happlied,
    balances_of_derives hengine.costOf (fun label hlabel ↦ hwf label ?_) hderives⟩
  have hsome := List.mem_map_of_mem (f := some) hlabel
  rw [← happlied, List.mem_map] at hsome
  obtain ⟨i, -, hi⟩ := hsome
  exact List.mem_of_getElem? hi

/-- **Exact accounts.**  In a derivation under a theory, each rewrite takes two occurrences of
steps and puts one, and an absorption takes two spiders besides; so the length of the derivation
is the number of occurrences that went away, and every cost changes by what its rules took and
put.  The roles that something is demanded of stay, and without a fusion so do the steps. -/
theorem derivation_balances (hengine : engine.Lawful generatorsOf) {bits roles : UInt8}
    {rules : List R} (hrules : ruleTheory engine bits roles = .ok rules) {indices : List Nat}
    {w w' : W} (h : Derives (StepAt engine rules) w indices w') :
    ∃ labels applied, ruleLabels engine bits roles = .ok labels ∧
      indices.map (labels[·]?) = applied.map some ∧
      Balances engine applied (engine.contentOfColored w) (engine.contentOfColored w') :=
  exists_labels_of_derives hengine hrules (h.map engine.contentOfColored fun _ _ _ hstep ↦ hstep)

/-! ## The check of an optimization -/

/-- The writing that a search found, and how it got there. -/
structure RewriteOutcome (W S : Type) where
  best : W
  steps : List S

/-- What can go wrong while a declared writing is verified. -/
inductive ProcessError (E : Type) where
  /-- The engine rejected something. -/
  | catgraph (inner : E)
  /-- The steps lead elsewhere than to the writing that was declared. -/
  | unsound (message : String)

/-- An engine that searches for cheap writings, with steps `S` and contents `C`. -/
structure OptimizeEngine (E X W R S C : Type) extends RewriteEngine E X W R where
  optimize : W → List R → Nat → (WorkflowGen → Nat) → Except E (RewriteOutcome W S)
  /-- Redo recorded steps, each of which must be a match of the rule that it names. -/
  replay : W → List R → List S → Except E W
  /-- The index of the rule that a step names. -/
  ruleIndex : S → Nat
  content : W → C
  /-- Two contents are isomorphic. -/
  contentEq : C → C → Bool

section Check

variable {S C : Type} (opt : OptimizeEngine E X W R S C)

/-- Search for a cheaper writing, with a bound on the rewrites. -/
def optimizeWorkflow (start : W) (rules : List R) (fuel : Nat) (perGen : WorkflowGen → Nat) :
    Except E (RewriteOutcome W S) := opt.optimize start rules fuel perGen

/-- Two workflows are the same process. -/
def contentMatches (left right : W) : Bool := opt.contentEq (opt.content left) (opt.content right)

/-- Check that the steps of an outcome lead to the writing that it declares. -/
def verifyOptimization (start : W) (rules : List R) (outcome : RewriteOutcome W S) :
    Except (ProcessError E) Unit := do
  let replayed ← (opt.replay start rules outcome.steps).mapError .catgraph
  if contentMatches opt replayed outcome.best then return ()
  throw (.unsound (s!"replaying {outcome.steps.length} step(s) landed on a process that is not " ++
    "the reported representative"))

/-- What replaying and comparing mean: recorded steps are rewrites, one after the other, and
isomorphic contents have the same edges. -/
structure OptimizeEngine.Replays : Prop where
  replay {start w : W} {rules : List R} {steps : List S} : opt.replay start rules steps = .ok w →
    ∃ content, Derives (ContentStep opt.toRewriteEngine rules) (opt.contentOfColored start)
      (steps.map opt.ruleIndex) content ∧ content.Perm (opt.contentOfColored w)
  contentEq {w w' : W} : opt.contentEq (opt.content w) (opt.content w') = true →
    (opt.contentOfColored w).Perm (opt.contentOfColored w')

variable {opt} {start : W} {rules : List R} {outcome : RewriteOutcome W S}

/-- What passes has been replayed, and leads to what was declared. -/
theorem verifyOptimization_eq_ok :
    verifyOptimization opt start rules outcome = .ok () ↔ ∃ replayed,
      opt.replay start rules outcome.steps = .ok replayed ∧
        contentMatches opt replayed outcome.best = true := by
  rw [verifyOptimization]
  cases opt.replay start rules outcome.steps with
  | error e =>
      constructor
      · exact fun h ↦ nomatch h
      · rintro ⟨replayed, h, -⟩
        cases h
  | ok replayed =>
      change (if contentMatches opt replayed outcome.best then _ else _) = _ ↔ _
      constructor
      · intro h
        split at h
        · next hmatches => exact ⟨replayed, rfl, hmatches⟩
        · cases h
      · rintro ⟨_, ⟨⟩, hmatches⟩
        rw [if_pos hmatches]
        rfl

end Check

/-- The order of the generators at the end does not matter. -/
theorem Balances.of_perm {content'' : List WorkflowGen}
    (hcost : ∀ content perGen, engine.costOf content perGen = (content.map perGen).sum)
    (h : Balances engine applied content content') (hperm : content'.Perm content'') :
    Balances engine applied content content'' := by
  have hcosts (perGen : WorkflowGen → Nat) :
      engine.costOf content'' perGen = engine.costOf content' perGen := by
    rw [hcost, hcost]
    exact (hperm.symm.map perGen).sum_eq
  have hsteps : (userSteps content'').Perm (userSteps content') := hperm.symm.filterMap _
  have hdistinct : (CountedDemand.ofContent content'').distinct =
      (CountedDemand.ofContent content').distinct := by
    refine CountedDemand.distinct_eq_of_mem_iff fun s ↦ ?_
    rw [CountedDemand.occurrences_ofContent, CountedDemand.occurrences_ofContent, hsteps.mem_iff]
  refine
    { priced := fun perGen ↦ ?_
      multiplicity := fun s ↦ ?_
      total := ?_
      uniform := ?_
      roles := fun role ↦ ?_
      unfused := fun hschema ↦ ?_ }
  · rw [hcosts]
    exact h.priced perGen
  · rw [multiplicity_ofContent, hsteps.count_eq, ← multiplicity_ofContent]
    exact h.multiplicity s
  · rw [total_ofContent content'', hsteps.length_eq, ← total_ofContent]
    exact h.total
  · rw [hcosts]
    exact h.uniform
  · rw [hdistinct]
    exact h.roles role
  · rw [hdistinct]
    simp only [hcosts]
    exact h.unfused hschema

/-- **The check is sound.**  An outcome that passes has been derived from the workflow that it is
declared for, by the rules that its steps name: its cost is less than that of the workflow by what
these took and put, and it demands as many occurrences fewer as it has steps. -/
theorem verified_outcome_balances {S C : Type} {opt : OptimizeEngine E X W R S C}
    (hengine : opt.toRewriteEngine.Lawful generatorsOf) (hreplays : opt.Replays)
    {bits roles : UInt8} {rules : List R}
    (hrules : ruleTheory opt.toRewriteEngine bits roles = .ok rules) {start : W}
    {outcome : RewriteOutcome W S} (h : verifyOptimization opt start rules outcome = .ok ()) :
    (∃ labels applied, ruleLabels opt.toRewriteEngine bits roles = .ok labels ∧
      (outcome.steps.map opt.ruleIndex).map (labels[·]?) = applied.map some ∧
      Balances opt.toRewriteEngine applied (opt.contentOfColored start)
        (opt.contentOfColored outcome.best)) ∧
    workflowCost opt.toRewriteEngine outcome.best uniformCost + outcome.steps.length ≤
      workflowCost opt.toRewriteEngine start uniformCost ∧
    (countedDemand opt.toCatgraph start).total =
      (countedDemand opt.toCatgraph outcome.best).total + outcome.steps.length := by
  obtain ⟨replayed, hreplay, hmatches⟩ := verifyOptimization_eq_ok.mp h
  obtain ⟨content, hderives, hcontent⟩ := hreplays.replay hreplay
  obtain ⟨labels, applied, hlabels, happlied, hbalances⟩ :=
    exists_labels_of_derives hengine hrules hderives
  have hbest := hbalances.of_perm hengine.costOf (hcontent.trans (hreplays.contentEq hmatches))
  have hlength : applied.length = outcome.steps.length := by
    have hlengths := congrArg List.length happlied
    simpa only [List.length_map] using hlengths.symm
  refine ⟨⟨labels, applied, hlabels, happlied, hbest⟩, ?_, ?_⟩
  · have huniform := hbest.uniform
    rw [workflowCost, workflowCost]
    omega
  · rw [← hlength]
    exact hbest.total

/-! ### A small universe -/

section Example

open Terms

/-- The sample engine with a replay: a step records its rule, what it leaves alone, and the
workflow that it leads to. -/
def sampleReplay (rules : List ((List Role ⊕ Term) × (List Role ⊕ Term))) :
    (List Role ⊕ Term) → List (Nat × List WorkflowGen × (List Role ⊕ Term)) →
      Except String (List Role ⊕ Term)
  | w, [] => .ok w
  | w, (i, rest, w') :: steps =>
      match rules[i]? with
      | none => .error "no such rule"
      | some rule =>
          if (sampleEngine.contentOfColored w).Perm
                ((sampleEngine.replacement rule).left ++ rest) ∧
              (sampleEngine.contentOfColored w').Perm
                ((sampleEngine.replacement rule).right ++ rest) then
            sampleReplay rules w' steps
          else .error "no match"

def sampleOptimizer : OptimizeEngine String Term (List Role ⊕ Term)
    ((List Role ⊕ Term) × (List Role ⊕ Term)) (Nat × List WorkflowGen × (List Role ⊕ Term))
    (List WorkflowGen) where
  toRewriteEngine := sampleEngine
  optimize start _ _ _ := .ok ⟨start, []⟩
  replay start rules steps := sampleReplay rules start steps
  ruleIndex step := step.1
  content := sampleEngine.contentOfColored
  contentEq c c' := decide (c.Perm c')

theorem derives_of_sampleReplay {rules : List ((List Role ⊕ Term) × (List Role ⊕ Term))}
    {steps : List (Nat × List WorkflowGen × (List Role ⊕ Term))} {w w' : List Role ⊕ Term}
    (h : sampleReplay rules w steps = .ok w') :
    Derives (StepAt sampleEngine rules) w (steps.map Prod.fst) w' := by
  induction steps generalizing w with
  | nil =>
      cases h
      exact .refl _
  | cons step steps ih =>
      obtain ⟨i, rest, next⟩ := step
      rw [sampleReplay] at h
      split at h
      · cases h
      · next rule hrule =>
          split at h
          · next hmatch => exact .cons ⟨rule, hrule, rest, hmatch⟩ (ih h)
          · cases h

theorem sampleOptimizer_replays : sampleOptimizer.Replays where
  replay h := by
    have hderives := derives_of_sampleReplay h
    exact ⟨_, hderives.map sampleEngine.contentOfColored fun _ _ _ hstep ↦ hstep, .refl _⟩
  contentEq h := of_decide_eq_true h

/-- A step twice, and the rewrite of it to the step. -/
def twice : List Role ⊕ Term :=
  .inr (.compose (.generator (.user ⟨1, 0⟩)) (.generator (.user ⟨1, 0⟩)))

def onceOutcome :
    RewriteOutcome (List Role ⊕ Term) (Nat × List WorkflowGen × (List Role ⊕ Term)) where
  best := .inr (.generator (.user ⟨1, 0⟩))
  steps := [(1, [], .inr (.generator (.user ⟨1, 0⟩)))]

theorem exists_verified : ∃ rules, ruleTheory sampleEngine 3 1 = .ok rules ∧
    verifyOptimization sampleOptimizer twice rules onceOutcome = .ok () := by
  have hok : ((ruleTheory sampleEngine 3 1).toOption.map fun rules ↦
      (verifyOptimization sampleOptimizer twice rules onceOutcome).isOk) = some true := by
    decide +kernel
  cases hrules : ruleTheory sampleEngine 3 1 with
  | error e =>
      rw [hrules] at hok
      cases hok
  | ok rules =>
      rw [hrules] at hok
      refine ⟨rules, rfl, ?_⟩
      have hverified : (verifyOptimization sampleOptimizer twice rules onceOutcome).isOk = true :=
        Option.some.inj hok
      cases hcheck : verifyOptimization sampleOptimizer twice rules onceOutcome with
      | error e =>
          rw [hcheck] at hverified
          cases hverified
      | ok u => rfl

/-- One rewrite makes one occurrence of two, and the check accepts it. -/
theorem twice_is_once_verified :
    workflowCost sampleEngine onceOutcome.best uniformCost + onceOutcome.steps.length ≤
      workflowCost sampleEngine twice uniformCost ∧
    (countedDemand sampleEngine.toCatgraph twice).total =
      (countedDemand sampleEngine.toCatgraph onceOutcome.best).total +
        onceOutcome.steps.length := by
  obtain ⟨rules, hrules, hverified⟩ := exists_verified
  exact (verified_outcome_balances sampleEngine_lawful
    sampleOptimizer_replays hrules hverified).2

theorem twice_is_once_derived : ∃ rules labels applied,
    ruleTheory sampleEngine 3 1 = .ok rules ∧ ruleLabels sampleEngine 3 1 = .ok labels ∧
      [1].map (labels[·]?) = applied.map some ∧
      Balances sampleEngine applied (sampleEngine.contentOfColored twice)
        (sampleEngine.contentOfColored onceOutcome.best) := by
  obtain ⟨rules, hrules, hverified⟩ := exists_verified
  obtain ⟨replayed, hreplay, -⟩ := verifyOptimization_eq_ok.mp hverified
  have hderives := derives_of_sampleReplay hreplay
  have hbest : replayed = onceOutcome.best := by
    change sampleReplay rules twice [(1, [], onceOutcome.best)] = _ at hreplay
    rw [sampleReplay] at hreplay
    split at hreplay
    · cases hreplay
    · split at hreplay
      · exact (Except.ok.inj hreplay).symm
      · cases hreplay
  rw [hbest] at hderives
  obtain ⟨labels, applied, hlabels, happlied, hbalances⟩ :=
    derivation_balances sampleEngine_lawful hrules hderives
  exact ⟨rules, labels, applied, hrules, hlabels, happlied, hbalances⟩

end Example

end Koalisi.Process
