import Mathlib.Data.List.Forall2
import Koalisi.Harness.Drawn
import Koalisi.Lib.Rewriting

/-!
# The rewrite theory

Two steps of one role in a row can be written as one: the same step twice is the step
(idempotence), two steps are a third one (fusion), and a step that is fanned out and joined again
is the step (absorption).  There is a rule for every step, or for every pair of steps of a role,
of a universe of bits and roles.

The engine that rewrites is not modelled.  It is a parameter, which makes rules and adds up costs.
A step of a derivation replaces the generators of one side of a rule by those of the other.
-/

namespace Koalisi.Process

open Koalisi.Harness Koalisi.Lib Koalisi.Lib.Fallible

/-- The engine of string diagrams, with rules `R`. -/
structure RewriteEngine (E X W R : Type) extends Catgraph E X W where
  /-- A rule from one workflow to another, if they have the same interfaces. -/
  rewriteRule : W → W → Except E R
  lhs : R → W
  rhs : R → W
  /-- The cost of some generators, given that of each. -/
  costOf : List WorkflowGen → (WorkflowGen → Nat) → Nat

/-! ## Costs -/

/-- How scarce those are who can perform a step. -/
def scarcity (table : StaffingTable) (step : Step) : Nat := table.poolSize - table.holders step

def price (table : StaffingTable) (step : Step) : Nat := 1 + scarcity table step

def uniformCost : WorkflowGen → Nat := fun _ ↦ 1

/-- A step costs more the fewer can perform it, a spider costs one. -/
def staffingPrice (table : StaffingTable) : WorkflowGen → Nat
  | .user step => price table step
  | .mu _ | .eta _ | .delta _ | .epsilon _ => 1

/-! ## Pairs of steps -/

/-- The numbers below a width. -/
def each (width : UInt8) : List UInt8 := (List.range width.toNat).map Nat.toUInt8

/-- The bit that two bits are fused to; the sum has 16 bits. -/
def fusionTarget (bits first second : UInt8) : Option UInt8 :=
  if bits = 0 then none
  else
    let target := (first.toUInt16 + second.toUInt16 + 4) % bits.toUInt16
    if target.toNat < 2 ^ 8 then some target.toUInt8 else none

/-- The pairs of bits that are fused to a third bit. -/
def fusionPairs (bits : UInt8) : List (UInt8 × UInt8 × UInt8) :=
  (each bits).flatMap fun first ↦ (each bits).filterMap fun second ↦
    if second = first then none
    else do
      let target ← fusionTarget bits first second
      if target = first ∨ target = second then none else some (first, second, target)

/-! ## Rules -/

inductive Schema where
  | idempotence
  | fusion
  | spiderAbsorption
deriving DecidableEq, Repr

/-- What a rule is: its schema, the steps it takes and the one it puts. -/
structure LabelledRule where
  schema : Schema
  sources : Step × Step
  target : Step
deriving DecidableEq, Repr

section Rules

variable {E X W R : Type} (engine : RewriteEngine E X W R)

def workflowCost (workflow : W) (perGen : WorkflowGen → Nat) : Nat :=
  engine.costOf (engine.contentOfColored workflow) perGen

/-- An expression with one wire of a role. -/
def pin (role : Role) (expr : X) : Except E W := engine.colored [role] expr

/-- The rule that parts in a row are one step. -/
def collapse (role : Role) (parts : List X) (target : Step) : Except E R := do
  let lhs ← pin engine role (← chain engine.toCatgraph parts)
  let rhs ← pin engine role (stepExpr engine.toCatgraph target)
  engine.rewriteRule lhs rhs

/-- A step twice in a row is the step. -/
def idempotence (step : Step) : Except E R :=
  let s := stepExpr engine.toCatgraph step
  collapse engine step.role [s, s] step

/-- Two steps in a row are a third one. -/
def fusion (first second target : Step) : Except E R :=
  collapse engine first.role
    [stepExpr engine.toCatgraph first, stepExpr engine.toCatgraph second] target

/-- A step that is fanned out and joined again is the step. -/
def spiderAbsorption (step : Step) : Except E R :=
  let s := stepExpr engine.toCatgraph step
  collapse engine step.role
    [spiderExpr engine.toCatgraph (.delta step.role), engine.tensor s s,
      spiderExpr engine.toCatgraph (.mu step.role)] step

/-- What is refused: a universe without bits or roles, and one in which nothing is fused. -/
def checkShape (bits roles : UInt8) : Except E Unit :=
  if bits = 0 ∨ roles = 0 then
    .error (engine.presentation
      (s!"rule theory: a universe needs at least one bit and one role (bits={bits}, " ++
        s!"roles={roles})"))
  else if (fusionPairs bits).isEmpty then
    .error (engine.presentation
      (s!"rule theory: no ordered pair (b, b') of distinct bits in a {bits}-bit universe has " ++
        s!"(b + b' + 4) mod {bits} outside \x7bb, b'\x7d, so the fusion schema would be empty — " ++
        "the remaining schemas move occurrence count only and could not change a staffing " ++
        "decision"))
  else .ok ()

/-- All rules: those of each schema after those of the one before. -/
def ruleTheory (bits roles : UInt8) : Except E (List R) := do
  checkShape engine bits roles
  let pairs := fusionPairs bits
  let idempotences ← (each roles).mapM fun role ↦
    (each bits).mapM fun bit ↦ idempotence engine ⟨bit, role⟩
  let fusions ← (each roles).mapM fun role ↦
    pairs.mapM fun (first, second, target) ↦
      fusion engine ⟨first, role⟩ ⟨second, role⟩ ⟨target, role⟩
  let absorptions ← (each roles).mapM fun role ↦
    (each bits).mapM fun bit ↦ spiderAbsorption engine ⟨bit, role⟩
  return idempotences.flatten ++ fusions.flatten ++ absorptions.flatten

/-- What the rules are, in the same order. -/
def ruleLabels (bits roles : UInt8) : Except E (List LabelledRule) := do
  checkShape engine bits roles
  let pairs := fusionPairs bits
  let idempotences := (each roles).map fun role ↦ (each bits).map fun bit ↦
    { schema := .idempotence
      sources := (⟨bit, role⟩, ⟨bit, role⟩)
      target := ⟨bit, role⟩ : LabelledRule }
  let fusions := (each roles).map fun role ↦ pairs.map fun (first, second, target) ↦
    { schema := .fusion
      sources := (⟨first, role⟩, ⟨second, role⟩)
      target := ⟨target, role⟩ : LabelledRule }
  let absorptions := (each roles).map fun role ↦ (each bits).map fun bit ↦
    { schema := .spiderAbsorption
      sources := (⟨bit, role⟩, ⟨bit, role⟩)
      target := ⟨bit, role⟩ : LabelledRule }
  return idempotences.flatten ++ fusions.flatten ++ absorptions.flatten

end Rules

/-! ## The labels -/

theorem mem_each {width n : UInt8} : n ∈ each width ↔ n < width := by
  rw [each, List.mem_map, UInt8.lt_iff_toNat_lt]
  constructor
  · rintro ⟨i, hi, rfl⟩
    have hlt := List.mem_range.mp hi
    have hwidth := width.toNat_lt
    rw [Nat.toUInt8, UInt8.toNat_ofNat']
    omega
  · intro h
    exact ⟨n.toNat, List.mem_range.mpr h, UInt8.ofNat_toNat⟩

theorem fusionTarget_lt {bits first second target : UInt8}
    (h : fusionTarget bits first second = some target) : target < bits := by
  rw [fusionTarget] at h
  split at h
  · cases h
  · next hbits =>
      have hpos : 0 < bits.toNat :=
        Nat.pos_of_ne_zero fun hzero ↦ hbits (UInt8.toNat.inj hzero)
      dsimp only at h
      split at h
      · cases h
        have hmod := Nat.mod_lt (first.toUInt16 + second.toUInt16 + 4).toNat hpos
        have hbound := bits.toNat_lt
        rw [UInt8.lt_iff_toNat_lt, UInt16.toNat_toUInt8, UInt16.toNat_mod, UInt8.toNat_toUInt16]
        omega
      · cases h

/-- Two different bits are fused to a third one. -/
theorem mem_fusionPairs {bits first second target : UInt8}
    (h : (first, second, target) ∈ fusionPairs bits) :
    first < bits ∧ second < bits ∧ target < bits ∧
      first ≠ second ∧ target ≠ first ∧ target ≠ second := by
  obtain ⟨b, hb, h⟩ := List.mem_flatMap.mp h
  obtain ⟨b', hb', h⟩ := List.mem_filterMap.mp h
  split at h
  · cases h
  · next hne =>
      obtain ⟨t, ht, h⟩ := Option.bind_eq_some_iff.mp h
      split at h
      · cases h
      · next hthird =>
          cases h
          rw [not_or] at hthird
          exact ⟨mem_each.mp hb, mem_each.mp hb', fusionTarget_lt ht, Ne.symm hne, hthird⟩

namespace LabelledRule

/-- What a rule of the theory over a universe can be. -/
structure WellFormed (bits roles : UInt8) (label : LabelledRule) : Prop where
  role_lt : label.target.role < roles
  firstRole : label.sources.1.role = label.target.role
  secondRole : label.sources.2.role = label.target.role
  first_lt : label.sources.1.bit < bits
  second_lt : label.sources.2.bit < bits
  target_lt : label.target.bit < bits
  /-- Only fusion takes other steps than it puts. -/
  same : label.schema ≠ .fusion → label.sources = (label.target, label.target)
  /-- Fusion takes two different steps, and puts a third one. -/
  third : label.schema = .fusion → label.sources.1.bit ≠ label.sources.2.bit ∧
    label.target.bit ≠ label.sources.1.bit ∧ label.target.bit ≠ label.sources.2.bit

end LabelledRule

section Labels

variable {E X W R : Type} {engine : RewriteEngine E X W R} {bits roles : UInt8}

/-- What holds of every label that two loops write. -/
theorem forall_mem_loops {α β : Type} {outer : List α} {inner : List β}
    {label : α → β → LabelledRule} {P : LabelledRule → Prop}
    (h : ∀ a ∈ outer, ∀ b ∈ inner, P (label a b)) :
    ∀ l ∈ (outer.map fun a ↦ inner.map (label a)).flatten, P l := by
  intro l hl
  obtain ⟨_, hrow, hl⟩ := List.mem_flatten.mp hl
  obtain ⟨a, ha, rfl⟩ := List.mem_map.mp hrow
  obtain ⟨b, hb, rfl⟩ := List.mem_map.mp hl
  exact h a ha b hb

theorem wellFormed_of_ruleLabels {labels : List LabelledRule}
    (h : ruleLabels engine bits roles = .ok labels) :
    ∀ label ∈ labels, label.WellFormed bits roles := by
  obtain ⟨-, -, h⟩ := except_bind_eq_ok.mp h
  cases h
  -- a schema that puts the step it takes
  have hsame (schema : Schema) (hschema : schema ≠ .fusion) (role : Role)
      (hrole : role ∈ each roles) (bit : UInt8) (hbit : bit ∈ each bits) :
      LabelledRule.WellFormed bits roles
        ⟨schema, (⟨bit, role⟩, ⟨bit, role⟩), ⟨bit, role⟩⟩ := by
    have hlt := mem_each.mp hbit
    exact ⟨mem_each.mp hrole, rfl, rfl, hlt, hlt, hlt, fun _ ↦ rfl, fun h ↦ absurd h hschema⟩
  intro label hlabel
  rcases List.mem_append.mp hlabel with hlabel | hlabel
  · rcases List.mem_append.mp hlabel with hlabel | hlabel
    · exact forall_mem_loops (hsame .idempotence (by decide)) label hlabel
    · refine forall_mem_loops (fun role hrole pair hpair ↦ ?_) label hlabel
      obtain ⟨hfirst, hsecond, htarget, hne, hthird⟩ := mem_fusionPairs hpair
      exact ⟨mem_each.mp hrole, rfl, rfl, hfirst, hsecond, htarget, fun h ↦ absurd rfl h,
        fun _ ↦ ⟨hne, hthird⟩⟩
  · exact forall_mem_loops (hsame .spiderAbsorption (by decide)) label hlabel

variable (engine) in
/-- The rule with a label. -/
def LabelledRule.build (label : LabelledRule) : Except E R :=
  match label.schema with
  | .idempotence => idempotence engine label.target
  | .fusion => fusion engine label.sources.1 label.sources.2 label.target
  | .spiderAbsorption => spiderAbsorption engine label.target

/-- The rules that two loops build have the labels that two loops write. -/
theorem builds_of_mapM {α β : Type} {outer : List α} {inner : List β}
    {rule : α → β → Except E R} {label : α → β → LabelledRule} {rules : List (List R)}
    (hlabel : ∀ a b, (label a b).build engine = rule a b)
    (h : (outer.mapM fun a ↦ inner.mapM (rule a)) = .ok rules) :
    List.Forall₂ (fun label rule ↦ label.build engine = .ok rule)
      (outer.map fun a ↦ inner.map (label a)).flatten rules.flatten := by
  refine List.rel_flatten (List.forall₂_map_left_iff.mpr ((mapM_eq_ok_iff.mp h).imp ?_))
  intro a row hrow
  refine List.forall₂_map_left_iff.mpr ((mapM_eq_ok_iff.mp hrow).imp ?_)
  intro b r hr
  rw [hlabel, hr]

/-- The label at an index is that of the rule at this index. -/
theorem ruleLabels_of_ruleTheory {rules : List R} (h : ruleTheory engine bits roles = .ok rules) :
    ∃ labels, ruleLabels engine bits roles = .ok labels ∧
      List.Forall₂ (fun label rule ↦ label.build engine = .ok rule) labels rules := by
  obtain ⟨⟨⟩, hshape, h⟩ := except_bind_eq_ok.mp h
  obtain ⟨idempotences, hidempotences, h⟩ := except_bind_eq_ok.mp h
  obtain ⟨fusions, hfusions, h⟩ := except_bind_eq_ok.mp h
  obtain ⟨absorptions, habsorptions, h⟩ := except_bind_eq_ok.mp h
  cases h
  refine ⟨_, except_bind_eq_ok.mpr ⟨(), hshape, rfl⟩, ?_⟩
  refine List.rel_append (List.rel_append ?_ ?_) ?_
  · exact builds_of_mapM (fun _ _ ↦ rfl) hidempotences
  · exact builds_of_mapM (fun _ _ ↦ rfl) hfusions
  · exact builds_of_mapM (fun _ _ ↦ rfl) habsorptions

end Labels

end Koalisi.Process
