import Mathlib.Data.List.Sort
import Koalisi.Process.Theory

/-!
# Rewriting under the theory

Each rule of the theory takes two steps and perhaps two spiders, and puts one step.  So a rewrite
makes a workflow cheaper at a uniform cost, and no derivation goes on forever: one with any step has
fewer than the cost of the workflow that it starts from (`ruleTheory_derives`).

Idempotence and absorption put a step that they took, so the same steps are demanded as before.
Fusion puts one that it did not take, of the same role.
-/

namespace Koalisi.Process

open Koalisi.Harness Koalisi.Lib Koalisi.Lib.Fallible

variable {E X W R : Type} {engine : RewriteEngine E X W R} {generatorsOf : X → List WorkflowGen}

/-! ## Steps of a derivation -/

/-- The engine lists the generators of expressions, a rule has the sides that it was made of, and
costs are added up. -/
structure RewriteEngine.Lawful (engine : RewriteEngine E X W R)
    (generatorsOf : X → List WorkflowGen) : Prop where
  listsGenerators : engine.toCatgraph.ListsGenerators generatorsOf
  sides {l r : W} {rule : R} : engine.rewriteRule l r = .ok rule →
    engine.lhs rule = l ∧ engine.rhs rule = r
  costOf (content : List WorkflowGen) (perGen : WorkflowGen → Nat) :
    engine.costOf content perGen = (content.map perGen).sum

/-- The generators that a rule takes, and those that it puts. -/
def RewriteEngine.replacement (engine : RewriteEngine E X W R) (rule : R) :
    Replacement WorkflowGen where
  left := engine.contentOfColored (engine.lhs rule)
  right := engine.contentOfColored (engine.rhs rule)

/-- A rewrite by the rule at an index. -/
def StepAt (engine : RewriteEngine E X W R) (rules : List R) (i : Nat) (w w' : W) : Prop :=
  ∃ rule, rules[i]? = some rule ∧
    (engine.replacement rule).Rewrites (engine.contentOfColored w) (engine.contentOfColored w')

namespace LabelledRule

/-- The generators that a rule with this label takes, and the one that it puts. -/
def replacement (label : LabelledRule) : Replacement WorkflowGen where
  left :=
    match label.schema with
    | .idempotence | .fusion => [.user label.sources.1, .user label.sources.2]
    | .spiderAbsorption =>
        [.delta label.target.role, .user label.sources.1, .user label.sources.2,
          .mu label.target.role]
  right := [.user label.target]

/-- The steps of a rule are those of its label, and it was built by the schema. -/
structure Describes (engine : RewriteEngine E X W R) (label : LabelledRule) (rule : R) :
    Prop where
  built : label.build engine = .ok rule
  left : (engine.replacement rule).left.Perm label.replacement.left
  right : (engine.replacement rule).right.Perm label.replacement.right

/-- What a rewrite by a rule with this label does to a workflow. -/
structure Acts (engine : RewriteEngine E X W R) (bits : UInt8) (label : LabelledRule) (w w' : W) :
    Prop where
  cheaper : workflowCost engine w' uniformCost < workflowCost engine w uniformCost
  /-- Idempotence and absorption leave what is demanded as it is. -/
  demand_eq : label.schema ≠ .fusion →
    demand engine.toCatgraph w' = demand engine.toCatgraph w
  price_le : label.schema ≠ .fusion → ∀ table,
    workflowCost engine w' (staffingPrice table) ≤ workflowCost engine w (staffingPrice table)
  /-- Fusion leaves the roles that something is demanded of. -/
  roles_iff : label.schema = .fusion → ∀ role,
    (∃ s ∈ (demand engine.toCatgraph w').distinct, s.role = role) ↔
      ∃ s ∈ (demand engine.toCatgraph w).distinct, s.role = role
  /-- It takes two steps, and puts one with another bit. -/
  introduces : label.schema = .fusion →
    label.sources.1 ∈ (demand engine.toCatgraph w).distinct ∧
      label.sources.2 ∈ (demand engine.toCatgraph w).distinct ∧
      label.target ∈ (demand engine.toCatgraph w').distinct ∧
      label.target.bit < bits ∧ label.target.bit ≠ label.sources.1.bit ∧
      label.target.bit ≠ label.sources.2.bit ∧
      label.sources.1.role = label.target.role ∧ label.sources.2.role = label.target.role

end LabelledRule

/-! ## The sides of a rule -/

/-- A rule takes the generators of its parts, and puts its step. -/
theorem replacement_of_collapse (hengine : engine.Lawful generatorsOf) {role : Role}
    {parts : List X} {target : Step} {rule : R}
    (h : collapse engine role parts target = .ok rule) :
    (engine.replacement rule).left.Perm (parts.flatMap generatorsOf) ∧
      (engine.replacement rule).right.Perm [.user target] := by
  obtain ⟨row, hrow, h⟩ := except_bind_eq_ok.mp h
  obtain ⟨left, hleft, h⟩ := except_bind_eq_ok.mp h
  obtain ⟨right, hright, hrule⟩ := except_bind_eq_ok.mp h
  obtain ⟨hlhs, hrhs⟩ := hengine.sides hrule
  rw [RewriteEngine.replacement, hlhs, hrhs]
  constructor
  · exact (hengine.listsGenerators.content hleft).trans
      (perm_of_chain hengine.listsGenerators hrow)
  · exact (hengine.listsGenerators.content hright).trans (hengine.listsGenerators.generator _)

namespace LabelledRule

variable {bits roles : UInt8} {label : LabelledRule} {rule : R}

/-- A label describes the rule that is built from it. -/
theorem describes_of_build (hengine : engine.Lawful generatorsOf)
    (hlabel : label.WellFormed bits roles) (h : label.build engine = .ok rule) :
    label.Describes engine rule := by
  obtain ⟨schema, ⟨first, second⟩, target⟩ := label
  have hstep (step : Step) : (generatorsOf (stepExpr engine.toCatgraph step)).Perm [.user step] :=
    hengine.listsGenerators.generator _
  have hspider (spider : WorkflowGen) :
      (generatorsOf (spiderExpr engine.toCatgraph spider)).Perm [spider] :=
    hengine.listsGenerators.generator _
  have hrow {x y : List WorkflowGen} {g g' : WorkflowGen} (hx : x.Perm [g]) (hy : y.Perm [g']) :
      (x ++ (y ++ [])).Perm [g, g'] :=
    hx.append (hy.append (.refl []))
  cases schema with
  | idempotence =>
      obtain ⟨rfl, rfl⟩ := Prod.mk.inj (hlabel.same fun h ↦ nomatch h)
      obtain ⟨hleft, hright⟩ := replacement_of_collapse hengine h
      exact ⟨h, hleft.trans (hrow (hstep second) (hstep second)), hright⟩
  | fusion =>
      obtain ⟨hleft, hright⟩ := replacement_of_collapse hengine h
      exact ⟨h, hleft.trans (hrow (hstep first) (hstep second)), hright⟩
  | spiderAbsorption =>
      obtain ⟨rfl, rfl⟩ := Prod.mk.inj (hlabel.same fun h ↦ nomatch h)
      obtain ⟨hleft, hright⟩ := replacement_of_collapse hengine h
      have hboth := (hengine.listsGenerators.tensor (stepExpr engine.toCatgraph second)
        (stepExpr engine.toCatgraph second)).trans ((hstep second).append (hstep second))
      have hjoined := hboth.append ((hspider (.mu second.role)).append (.refl []))
      exact ⟨h, hleft.trans ((hspider (.delta second.role)).append hjoined), hright⟩

/-! ## What a rewrite does -/

/-- Of the generators that a rule takes, two are steps. -/
theorem userSteps_left (label : LabelledRule) :
    userSteps label.replacement.left = [label.sources.1, label.sources.2] := by
  obtain ⟨schema, sources, target⟩ := label
  cases schema with
  | idempotence => rfl
  | fusion => rfl
  | spiderAbsorption => rfl

theorem uniformCost_lt (label : LabelledRule) :
    (label.replacement.right.map uniformCost).sum <
      (label.replacement.left.map uniformCost).sum := by
  obtain ⟨schema, sources, target⟩ := label
  cases schema with
  | idempotence => exact (by decide : 1 < 2)
  | fusion => exact (by decide : 1 < 2)
  | spiderAbsorption => exact (by decide : 1 < 4)

/-- A step costs no more than the same step with anything else. -/
theorem staffingPrice_le (table : StaffingTable)
    (hsame : label.sources = (label.target, label.target)) :
    (label.replacement.right.map (staffingPrice table)).sum ≤
      (label.replacement.left.map (staffingPrice table)).sum := by
  obtain ⟨schema, sources, target⟩ := label
  change sources = (target, target) at hsame
  subst hsame
  have hle : staffingPrice table (.user target) + 0 ≤
      staffingPrice table (.user target) + (staffingPrice table (.user target) + 0) :=
    Nat.add_le_add_left (Nat.zero_le _) _
  cases schema with
  | idempotence => exact hle
  | fusion => exact hle
  | spiderAbsorption =>
      -- one spider more before them, and one after
      refine hle.trans (Nat.le_add_left_of_le ?_)
      exact Nat.add_le_add_left (Nat.add_le_add_left (Nat.zero_le _) _) _

end LabelledRule

/-- The role that a generator demands something of. -/
def roleOf : WorkflowGen → Option Role
  | .user step => some step.role
  | _ => none

theorem mem_filterMap_roleOf {generators : List WorkflowGen} {role : Role} :
    role ∈ generators.filterMap roleOf ↔ ∃ s ∈ userSteps generators, s.role = role := by
  rw [List.mem_filterMap]
  constructor
  · rintro ⟨g, hg, hrole⟩
    cases g with
    | user step =>
        cases hrole
        exact ⟨step, mem_userSteps.mpr hg, rfl⟩
    | _ => cases hrole
  · rintro ⟨s, hs, rfl⟩
    exact ⟨.user s, mem_userSteps.mp hs, rfl⟩

/-- A demand is known by its distinct steps. -/
theorem demand_eq_of_mem_iff {d d' : Demand} (h : ∀ s, s ∈ d.distinct ↔ s ∈ d'.distinct) :
    d = d' := by
  obtain ⟨distinct, hascending⟩ := d
  obtain ⟨distinct', hascending'⟩ := d'
  have hirrefl (s : Step) : ¬s.Before s := by
    rintro (hlt | ⟨-, hlt⟩)
    · exact UInt8.lt_irrefl _ hlt
    · exact UInt8.lt_irrefl _ hlt
  have : Std.Irrefl Step.Before := ⟨hirrefl⟩
  have : Std.Antisymm Step.Before :=
    ⟨fun a b hab hba ↦ absurd (hab.trans hba) (hirrefl a)⟩
  have hdistinct : distinct = distinct' := hascending.eq_of_mem_iff hascending' h
  cases hdistinct
  rfl

theorem mem_demand {w : W} {s : Step} :
    s ∈ (demand engine.toCatgraph w).distinct ↔ s ∈ userSteps (engine.contentOfColored w) :=
  Demand.mem_ofSteps

namespace LabelledRule

variable {bits roles : UInt8} {label : LabelledRule} {w w' : W}

/-- What replacing the generators of the label does. -/
theorem acts_of_rewrites (hengine : engine.Lawful generatorsOf)
    (hlabel : label.WellFormed bits roles)
    (h : label.replacement.Rewrites (engine.contentOfColored w) (engine.contentOfColored w')) :
    label.Acts engine bits w w' where
  cheaper := by
    rw [workflowCost, workflowCost, hengine.costOf, hengine.costOf]
    exact h.sum_lt label.uniformCost_lt
  demand_eq hschema := by
    refine demand_eq_of_mem_iff fun s ↦ ?_
    rw [mem_demand, mem_demand]
    refine h.mem_filterMap_iff (fun s ↦ ?_) s
    change s ∈ [label.target] ↔ s ∈ userSteps label.replacement.left
    rw [userSteps_left, hlabel.same hschema, List.mem_singleton, List.mem_pair, or_self]
  price_le hschema table := by
    rw [workflowCost, workflowCost, hengine.costOf, hengine.costOf]
    exact h.sum_le (staffingPrice_le table (hlabel.same hschema))
  roles_iff _ role := by
    simp only [mem_demand]
    rw [← mem_filterMap_roleOf, ← mem_filterMap_roleOf]
    refine h.mem_filterMap_iff (fun role ↦ ?_) role
    change role ∈ [label.target.role] ↔ _
    rw [mem_filterMap_roleOf, userSteps_left, List.mem_singleton]
    constructor
    · rintro rfl
      exact ⟨label.sources.1, List.mem_cons_self, hlabel.firstRole⟩
    · rintro ⟨s, hs, rfl⟩
      rcases List.mem_pair.mp hs with rfl | rfl
      · exact hlabel.firstRole
      · exact hlabel.secondRole
  introduces hschema := by
    obtain ⟨-, hfirst, hsecond⟩ := hlabel.third hschema
    have htaken {s : Step} (hs : s ∈ userSteps label.replacement.left) :
        s ∈ (demand engine.toCatgraph w).distinct :=
      mem_demand.mpr (mem_userSteps.mpr (h.left_subset (mem_userSteps.mp hs)))
    rw [userSteps_left] at htaken
    refine ⟨htaken List.mem_cons_self, htaken (List.mem_cons_of_mem _ List.mem_cons_self), ?_,
      hlabel.target_lt, hfirst, hsecond, hlabel.firstRole, hlabel.secondRole⟩
    exact mem_demand.mpr (mem_userSteps.mpr (h.right_subset List.mem_cons_self))

end LabelledRule

/-! ## Derivations -/

/-- What holds of the theory over a universe of bits and roles. -/
structure RewritesAsLabelled (engine : RewriteEngine E X W R) (bits roles : UInt8)
    (rules : List R) : Prop where
  /-- Each rule has a label, at its index, that says what it is; and a step acts as its label
  says. -/
  labels : ∃ labels, ruleLabels engine bits roles = .ok labels ∧
    List.Forall₂ (fun label rule ↦ label.WellFormed bits roles ∧ label.Describes engine rule)
      labels rules ∧
    ∀ i w w', StepAt engine rules i w w' →
      ∃ label, labels[i]? = some label ∧ label.Acts engine bits w w'
  /-- A derivation with any step has fewer than the cost of its workflow. -/
  length_lt : ∀ w steps w', Derives (StepAt engine rules) w steps w' → steps ≠ [] →
    steps.length < workflowCost engine w uniformCost

/-- The cost of a workflow that was rewritten is not zero. -/
theorem workflowCost_pos (hengine : engine.Lawful generatorsOf) {label : LabelledRule} {w w' : W}
    (h : label.replacement.Rewrites (engine.contentOfColored w) (engine.contentOfColored w')) :
    0 < workflowCost engine w' uniformCost := by
  have hmem := h.right_subset List.mem_cons_self
  rw [workflowCost, hengine.costOf]
  refine Nat.lt_of_lt_of_le Nat.zero_lt_one (List.single_le_sum (fun _ _ ↦ Nat.zero_le _) _ ?_)
  exact List.mem_map_of_mem hmem

/-- Whatever the universe, rewriting under the theory that is accepted for it terminates. -/
theorem ruleTheory_terminates (hengine : engine.Lawful generatorsOf) {bits roles : UInt8}
    {rules : List R} (hrules : ruleTheory engine bits roles = .ok rules) :
    RewritesAsLabelled engine bits roles rules := by
  obtain ⟨labels, hlabels, hbuilt⟩ := ruleLabels_of_ruleTheory hrules
  have hwf := wellFormed_of_ruleLabels hlabels
  have hdescribes : List.Forall₂
      (fun label rule ↦ label.WellFormed bits roles ∧ label.Describes engine rule)
      labels rules := by
    refine List.forall₂_iff_get.mpr ⟨hbuilt.length_eq, fun i hi hi' ↦ ?_⟩
    have hlabel := hwf _ (List.get_mem labels ⟨i, hi⟩)
    exact ⟨hlabel, LabelledRule.describes_of_build hengine hlabel (hbuilt.get hi hi')⟩
  -- a step replaces the generators of a label
  have hstep (i : Nat) (w w' : W) (h : StepAt engine rules i w w') :
      ∃ label, labels[i]? = some label ∧ label.WellFormed bits roles ∧
        label.replacement.Rewrites (engine.contentOfColored w) (engine.contentOfColored w') := by
    obtain ⟨rule, hrule, h⟩ := h
    obtain ⟨hi, rfl⟩ := List.getElem?_eq_some_iff.mp hrule
    have hi' : i < labels.length := hdescribes.length_eq ▸ hi
    obtain ⟨hlabel, hdescribed⟩ := hdescribes.get hi' hi
    exact ⟨_, List.getElem?_eq_getElem hi', hlabel, h.of_perm hdescribed.left hdescribed.right⟩
  refine ⟨⟨labels, hlabels, hdescribes, fun i w w' h ↦ ?_⟩, fun w steps w' h hne ↦ ?_⟩
  · obtain ⟨label, hi, hlabel, h⟩ := hstep i w w' h
    exact ⟨label, hi, LabelledRule.acts_of_rewrites hengine hlabel h⟩
  · have hlt (i : Nat) (w w' : W) (h : StepAt engine rules i w w') :
        workflowCost engine w' uniformCost < workflowCost engine w uniformCost := by
      obtain ⟨label, -, hlabel, h⟩ := hstep i w w' h
      exact (LabelledRule.acts_of_rewrites hengine hlabel h).cheaper
    have hpos (i : Nat) (w w' : W) (h : StepAt engine rules i w w') :
        0 < workflowCost engine w' uniformCost := by
      obtain ⟨label, -, -, h⟩ := hstep i w w' h
      exact workflowCost_pos hengine h
    exact h.length_lt (fun w ↦ workflowCost engine w uniformCost) hlt hpos hne

/-! ### A small universe -/

section Example

open Terms

/-- Workflows are trees, and the bare wires beside them. -/
def sampleEngine : RewriteEngine String Term (List Role ⊕ Term)
    ((List Role ⊕ Term) × (List Role ⊕ Term)) where
  presentation := id
  generator := .generator
  compose := Terms.engine.compose
  tensor := .tensor
  colored source x := (Terms.engine.colored source x).map .inr
  contentOfColored w := w.elim (fun _ ↦ []) Term.generators
  rewriteRule l r :=
    if l.elim id Term.source = r.elim id Term.source ∧
        l.elim id Term.target = r.elim id Term.target then .ok (l, r)
    else .error "interfaces"
  lhs := Prod.fst
  rhs := Prod.snd
  costOf content perGen := (content.map perGen).sum

theorem sampleEngine_lawful : sampleEngine.Lawful Term.generators where
  listsGenerators :=
    { generator := listsGenerators.generator
      compose := listsGenerators.compose
      tensor := listsGenerators.tensor
      content := by
        intro source x w h
        cases hcolored : Terms.engine.colored source x with
        | error e =>
            change (Terms.engine.colored source x).map Sum.inr = .ok w at h
            rw [hcolored] at h
            cases h
        | ok t =>
            change (Terms.engine.colored source x).map Sum.inr = .ok w at h
            rw [hcolored] at h
            cases h
            exact listsGenerators.content hcolored }
  sides {l r rule} h := by
    change (if _ then _ else _ : Except String _) = _ at h
    split at h
    · cases h
      exact ⟨rfl, rfl⟩
    · cases h
  costOf _ _ := rfl

theorem exists_sampleRules : ∃ rules, ruleTheory sampleEngine 3 1 = .ok rules := by
  have hok : (ruleTheory sampleEngine 3 1).isOk = true := by decide +kernel
  cases hrules : ruleTheory sampleEngine 3 1 with
  | error e =>
      rw [hrules] at hok
      cases hok
  | ok rules => exact ⟨rules, rfl⟩

theorem three_bits_terminate :
    ∃ rules, ruleTheory sampleEngine 3 1 = .ok rules ∧
      RewritesAsLabelled sampleEngine 3 1 rules := by
  obtain ⟨rules, hrules⟩ := exists_sampleRules
  exact ⟨rules, hrules, ruleTheory_terminates sampleEngine_lawful hrules⟩

/-- A bare wire costs nothing, and its derivation without steps is not shorter than that. -/
theorem bare_wire_derivation :
    sampleEngine.Lawful Term.generators ∧
      ∃ rules, ruleTheory sampleEngine 3 1 = .ok rules ∧
        Derives (StepAt sampleEngine rules) (.inl [0]) [] (.inl [0]) ∧
        ¬([] : List Nat).length < workflowCost sampleEngine (.inl [0]) uniformCost := by
  obtain ⟨rules, hrules⟩ := exists_sampleRules
  exact ⟨sampleEngine_lawful, rules, hrules, .refl _, by decide⟩

end Example

end Koalisi.Process
