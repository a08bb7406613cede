import Koalisi.Decision.Freeze

/-!
# A modulation by ones

With roles, a magnitude is computed along a way of its own: the members are listed with their
roles, the couplings are modulated, and nothing is cached.  If every entry of the modulation is
one, and everybody who counts has a role, the couplings are what they were, so the magnitudes
are.  What has to agree beyond that is how the two ways list the members, and what they do where
there are none.

The policy without roles need not evaluate a leave afresh, and its evaluator goes by the
leaver's own mask (`namesake_is_not_frozen`).  So the two policies can differ about a leaver
whose id is listed with other capabilities.
-/

namespace Koalisi.Decision

open Koalisi.Lib
open Koalisi.Harness (CapabilityAgent)
open Koalisi.Topology (Decision DecisionContext)

variable {K : Type} [Field K] [LinearOrder K] {cg : CatgraphMagnitude K}

/-! ## What is assumed of the engine -/

/-- Modulation multiplies each coupling by the entry for the roles of its two agents, if the
roles are in the table's range. -/
structure CatgraphMagnitude.Modulates (cg : CatgraphMagnitude K)
    (size : cg.RoleModulation → Nat) (entry : cg.RoleModulation → RoleId → RoleId → K) :
    Prop where
  modulate : ∀ couplings roles rho, (∀ i j p, (i, j, p) ∈ couplings →
      i < roles.length ∧ j < roles.length) → (∀ role ∈ roles, role < size rho) →
    cg.modulate couplings roles rho =
      .ok (couplings.map fun (i, j, p) ↦ (i, j, entry rho (roles.getD i 0) (roles.getD j 0) * p))

/-- Everybody who counts has a role in the table's range. -/
def TypedConfig.Covers (cfg : TypedConfig cg) (size : cg.RoleModulation → Nat) (required : UInt32)
    (agents : List CapabilityAgent) : Prop :=
  ∀ a ∈ agents, a.capabilities &&& required ≠ 0 →
    ∃ role, cfg.roles a.id = some role ∧ role < size cfg.rho

/-- Every entry of the modulation is one. -/
def TypedConfig.Identity (cfg : TypedConfig cg) (size : cg.RoleModulation → Nat)
    (entry : cg.RoleModulation → RoleId → RoleId → K) : Prop :=
  ∀ role role', role < size cfg.rho → role' < size cfg.rho → entry cfg.rho role role' = 1

/-! ## Both ways list the same members -/

variable {cfg : TypedConfig cg} {size : cg.RoleModulation → Nat}
  {entry : cg.RoleModulation → RoleId → RoleId → K} {required : UInt32}
  {agents coalition : List CapabilityAgent} {agent : CapabilityAgent}

/-- A side with a role in range for each of its masks. -/
structure TypedSide.Ranges (side : TypedSide) (masks : List UInt32) (n : Nat) : Prop where
  masks_eq : side.masks = masks
  length_roles : side.roles.length = side.masks.length
  in_range : ∀ role ∈ side.roles, role < n

omit [Field K] [LinearOrder K] in
theorem typedRelevantMasks_go (hcovers : cfg.Covers size required agents) (seen : List Nat) :
    ∃ side, typedRelevantMasks.go required cfg.roles seen agents = some side ∧
      side.Ranges (relevantMasks.go required seen agents) (size cfg.rho) := by
  induction agents generalizing seen with
  | nil => exact ⟨⟨[], []⟩, rfl, rfl, rfl, List.forall_mem_nil _⟩
  | cons a agents ih =>
      have hrest : cfg.Covers size required agents :=
        fun b hb ↦ hcovers b (List.mem_cons_of_mem a hb)
      rw [typedRelevantMasks.go, relevantMasks.go]
      by_cases hcounts : a.capabilities &&& required ≠ 0 ∧ a.id ∉ seen
      · obtain ⟨role, hrole, hlt⟩ := hcovers a List.mem_cons_self hcounts.1
        obtain ⟨side, hside, hranges⟩ := ih hrest (a.id :: seen)
        rw [if_neg (not_or.mpr hcounts), if_pos hcounts, hrole, hside]
        refine ⟨_, rfl, congrArg _ hranges.masks_eq, congrArg Nat.succ hranges.length_roles, ?_⟩
        exact List.forall_mem_cons.mpr ⟨hlt, hranges.in_range⟩
      · rw [if_neg hcounts, if_pos]
        · exact ih hrest seen
        · rwa [not_and_or, not_not, not_not] at hcounts

omit [Field K] [LinearOrder K] in
/-- Where everybody who counts has a role, there is a side, and it has the masks. -/
theorem exists_typedRelevantMasks (hcovers : cfg.Covers size required agents) :
    ∃ side, typedRelevantMasks agents required cfg.roles = some side ∧
      side.Ranges (relevantMasks agents required) (size cfg.rho) :=
  typedRelevantMasks_go hcovers []

omit [Field K] [LinearOrder K] in
theorem TypedConfig.Covers.filter (h : cfg.Covers size required agents)
    (p : CapabilityAgent → Bool) : cfg.Covers size required (agents.filter p) :=
  fun a ha ↦ h a (List.mem_of_mem_filter ha)

omit [Field K] [LinearOrder K] in
theorem TypedConfig.Covers.of_append (h : cfg.Covers size required (coalition ++ [agent])) :
    cfg.Covers size required coalition :=
  fun a ha ↦ h a (List.mem_append_left _ ha)

/-! ## And give them the same magnitude -/

variable {masks : List UInt32} {side : TypedSide}

/-- The couplings of members with roles are what they were. -/
theorem modulate_of_identity (hmod : cg.Modulates size entry) (hone : cfg.Identity size entry)
    (hside : side.Ranges masks (size cfg.rho)) :
    cg.modulate (memberCouplings side.masks required) side.roles cfg.rho =
      .ok (memberCouplings masks required) := by
  have hmasks := hside.masks_eq
  subst hmasks
  have hslots : ∀ i j p, (i, j, p) ∈ (memberCouplings side.masks required : List (Coupling K)) →
      i < side.roles.length ∧ j < side.roles.length := by
    intro i j p h
    obtain ⟨-, -, a, b, ha, hb, -⟩ := mem_memberCouplings.mp h
    rw [hside.length_roles]
    exact ⟨(List.getElem?_eq_some_iff.mp ha).1, (List.getElem?_eq_some_iff.mp hb).1⟩
  have hrange : ∀ i, i < side.roles.length → side.roles.getD i 0 < size cfg.rho := by
    intro i hi
    rw [List.getD_eq_getElem _ _ hi]
    exact hside.in_range _ (List.getElem_mem hi)
  rw [hmod.modulate _ _ _ hslots hside.in_range]
  refine congrArg Except.ok ((List.map_congr_left ?_).trans (List.map_id _))
  rintro ⟨i, j, p⟩ h
  obtain ⟨hi, hj⟩ := hslots i j p h
  change (i, j, entry cfg.rho _ _ * p) = (i, j, p)
  rw [hone _ _ (hrange i hi) (hrange j hj), one_mul]

/-- So is the magnitude, also of nobody. -/
theorem typedMagnitudeOrZero_of_identity (hmod : cg.Modulates size entry)
    (hone : cfg.Identity size entry) (hside : side.Ranges masks (size cfg.rho)) :
    typedMagnitudeOrZero cg side required cfg.rho = magnitudeOrZero cg masks required := by
  rw [typedMagnitudeOrZero, magnitudeOrZero, hside.masks_eq, typedMagnitudeOfMasks,
    modulate_of_identity hmod hone hside, magnitudeOfMasks, hside.masks_eq]
  rfl

/-! ## Decisions -/

variable {ctx : DecisionContext} {policy : MagnitudePolicy cg}

/-- With roles, a join is decided as two fresh magnitudes would have it. -/
theorem typed_shouldJoin (hmod : cg.Modulates size entry) (hone : cfg.Identity size entry)
    (hcovers : cfg.Covers size ctx.requiredCapabilities (coalition ++ [agent])) :
    (policy.withRoleModulation cfg).shouldJoin agent coalition ctx =
      pure (Call.join policy agent coalition ctx).fresh := by
  obtain ⟨without, hwithout, hranges⟩ := exists_typedRelevantMasks hcovers.of_append
  obtain ⟨withAgent, hwith, hranges'⟩ := exists_typedRelevantMasks hcovers
  have hsides : typedJoinSides cg cfg agent coalition ctx.requiredCapabilities =
      some (withAgent, without) := by
    rw [typedJoinSides, hwithout, hwith]
    rfl
  rw [MagnitudePolicy.shouldJoin, MagnitudePolicy.withRoleModulation]
  dsimp only
  rw [hsides]
  dsimp only
  rw [typedJoinDispatch, typedMagnitudeOrZero_of_identity hmod hone hranges,
    typedMagnitudeOrZero_of_identity hmod hone hranges']
  rfl

/-- So is a leave. -/
theorem typed_shouldLeave (hmod : cg.Modulates size entry) (hone : cfg.Identity size entry)
    (hcovers : cfg.Covers size ctx.requiredCapabilities coalition) :
    (policy.withRoleModulation cfg).shouldLeave agent coalition ctx =
      pure (Call.leave policy agent coalition ctx).fresh := by
  obtain ⟨sideIn, hin, hranges⟩ := exists_typedRelevantMasks hcovers
  obtain ⟨sideOut, hout, hranges'⟩ :=
    exists_typedRelevantMasks (hcovers.filter fun a ↦ a.id ≠ agent.id)
  have hsides : typedLeaveSides cg cfg agent coalition ctx.requiredCapabilities =
      some (sideIn, sideOut) := by
    rw [typedLeaveSides, hin, hout]
    rfl
  rw [MagnitudePolicy.shouldLeave, MagnitudePolicy.withRoleModulation]
  dsimp only
  rw [hsides]
  dsimp only
  rw [typedLeaveDispatch, typedMagnitudeOrZero_of_identity hmod hone hranges,
    typedMagnitudeOrZero_of_identity hmod hone hranges']
  rfl

/-- Two policies, each asked in a state of its own, act alike. -/
def ActAlike (x y : Locked cg (Decision K)) (guard guard' : Option (EvaluatorCache cg)) : Prop :=
  Settles x guard fun decision _ ↦ Settles y guard' fun decision' _ ↦ decision.act = decision'.act

/-! ## Values -/

/-- The value of some agents for a task, from a fresh magnitude. -/
def freshValue (cg : CatgraphMagnitude K) (required : UInt32) (agents : List CapabilityAgent) :
    Option K :=
  (magnitudeOrZero cg (relevantMasks agents required) required).toOption

variable {calculator : MagnitudeValueCalculator cg}

/-- With roles, the values are fresh ones. -/
theorem typed_calculateValue (hmod : cg.Modulates size entry) (hone : cfg.Identity size entry)
    (hcovers : cfg.Covers size calculator.requiredCapabilities agents) :
    (calculator.withRoleModulation cfg).calculateValue agents =
      pure (freshValue cg calculator.requiredCapabilities agents) := by
  obtain ⟨side, hside, hranges⟩ := exists_typedRelevantMasks hcovers
  rw [MagnitudeValueCalculator.calculateValue, MagnitudeValueCalculator.withRoleModulation]
  dsimp only
  rw [hside]
  dsimp only
  rw [typedMagnitudeOrZero_of_identity hmod hone hranges]
  rfl

/-- What is known of each result of a loop determines the results. -/
theorem eq_map_of_forall₂ {α β : Type} {f : α → β} {l : List α} {bs : List β}
    (h : List.Forall₂ (fun a b ↦ b = f a) l bs) : bs = l.map f := by
  induction h with
  | nil => rfl
  | cons hb _ ih => rw [hb, ih, List.map_cons]

variable [IsStrictOrderedRing K]

/-- Without roles, they come from the cache, and are fresh ones too. -/
theorem calculateValue_settles (hcg : cg.Exact) {guard : Option (EvaluatorCache cg)}
    (h : Sound guard) (huntyped : calculator.typed = none) (agents : List CapabilityAgent) :
    Settles (calculator.calculateValue agents) guard fun value guard' ↦
      Sound guard' ∧ value = freshValue cg calculator.requiredCapabilities agents := by
  rw [MagnitudeValueCalculator.calculateValue, huntyped, freshValue]
  dsimp only
  split
  · next hempty =>
      refine .pure ⟨h, ?_⟩
      rw [magnitudeOrZero, if_pos hempty]
      rfl
  · next hempty =>
      have hne : relevantMasks agents calculator.requiredCapabilities ≠ [] :=
        fun hnil ↦ hempty (List.isEmpty_iff.mpr hnil)
      rw [magnitudeOrZero_of_ne_nil hne]
      refine (cachedBase_settles hcg hne h).bind ?_
      rintro r guard' ⟨hsound, hr⟩
      cases r with
      | ok m => exact .pure ⟨hsound, hr⟩
      | error e => exact .pure ⟨hsound, hr⟩

/-- Over any calls, a calculator without roles gives the values that one with roles gives. -/
theorem values_alike (hcg : cg.Exact) (hmod : cg.Modulates size entry)
    (hone : cfg.Identity size entry) (huntyped : calculator.typed = none)
    {calls : List (List CapabilityAgent)}
    (hcovers : ∀ agents ∈ calls, cfg.Covers size calculator.requiredCapabilities agents) :
    ∃ values guard,
      (calls.mapM (calculator.withRoleModulation cfg).calculateValue).run none =
        some (values, none) ∧
      (calls.mapM calculator.calculateValue).run none = some (values, guard) := by
  have htyped : Settles (calls.mapM (calculator.withRoleModulation cfg).calculateValue) none
      fun values guard ↦ guard = none ∧ List.Forall₂ (fun agents value ↦
        value = freshValue cg calculator.requiredCapabilities agents) calls values := by
    refine .mapM (fun agents hagents guard hguard ↦ ?_) rfl
    rw [typed_calculateValue hmod hone (hcovers agents hagents)]
    exact .pure ⟨hguard, rfl⟩
  have hplain : Settles (calls.mapM calculator.calculateValue) none
      fun values guard ↦ Sound guard ∧ List.Forall₂ (fun agents value ↦
        value = freshValue cg calculator.requiredCapabilities agents) calls values :=
    .mapM (fun agents _ _ hguard ↦ calculateValue_settles hcg hguard huntyped agents) sound_none
  obtain ⟨values, _, hrun, rfl, hvalues⟩ := htyped
  obtain ⟨values', guard, hrun', -, hvalues'⟩ := hplain
  rw [eq_map_of_forall₂ hvalues] at hrun
  rw [eq_map_of_forall₂ hvalues'] at hrun'
  exact ⟨_, guard, hrun, hrun'⟩

/-- **Modulation by ones.**  Where everybody who counts has a role, a policy that modulates by
ones acts as it does without roles, whatever the caches were used for; about leaves evaluated by
the cache this is so if nobody else is listed under the leaver's id with other capabilities.  And
a calculator that modulates by ones gives, call after call, the values it gives without roles. -/
theorem identity_modulation (hcg : cg.Exact) (hmod : cg.Modulates size entry)
    (cfg : TypedConfig cg) (hone : cfg.Identity size entry) :
    (∀ policy : MagnitudePolicy cg, policy.typed = none → ∀ agent coalition ctx,
      ∀ guard guard', Call.Reachable guard → Call.Reachable guard' →
        (cfg.Covers size ctx.requiredCapabilities (coalition ++ [agent]) →
          ActAlike ((policy.withRoleModulation cfg).shouldJoin agent coalition ctx)
            (policy.shouldJoin agent coalition ctx) guard guard') ∧
        (cfg.Covers size ctx.requiredCapabilities coalition →
          (policy.leaveVariant = .evaluator → ∀ a ∈ coalition, a.id = agent.id →
            a.capabilities = agent.capabilities) →
          ActAlike ((policy.withRoleModulation cfg).shouldLeave agent coalition ctx)
            (policy.shouldLeave agent coalition ctx) guard guard')) ∧
    ∀ calculator : MagnitudeValueCalculator cg, calculator.typed = none →
      ∀ calls : List (List CapabilityAgent),
      (∀ agents ∈ calls, cfg.Covers size calculator.requiredCapabilities agents) →
      ∃ values guard,
        (calls.mapM (calculator.withRoleModulation cfg).calculateValue).run none =
          some (values, none) ∧
        (calls.mapM calculator.calculateValue).run none = some (values, guard) := by
  refine ⟨fun policy huntyped agent coalition ctx guard guard' _ hguard ↦
    ⟨fun hcovers ↦ ?_, fun hcovers hown ↦ ?_⟩,
    fun _ huntyped _ hcovers ↦ values_alike hcg hmod hone huntyped hcovers⟩
  · rw [typed_shouldJoin hmod hone hcovers]
    refine .pure ((Call.answer_settles hcg (.join policy agent coalition ctx) huntyped trivial
      (hguard.sound hcg)).imp ?_)
    rintro decision _ ⟨-, hfrozen⟩
    exact hfrozen.act_eq.symm
  · rw [typed_shouldLeave hmod hone hcovers]
    cases hvariant : policy.leaveVariant with
    | fresh =>
        refine .pure ?_
        rw [MagnitudePolicy.shouldLeave, huntyped]
        dsimp only
        rw [hvariant]
        exact .pure rfl
    | evaluator =>
        refine .pure ((Call.answer_settles hcg (.leave policy agent coalition ctx) huntyped
          (hown hvariant) (hguard.sound hcg)).imp ?_)
        rintro decision _ ⟨-, hfrozen⟩
        exact hfrozen.act_eq.symm

/-! ## A sample -/

/-- The engine that counts kinds has one modulation, by ones. -/
theorem modulates_kindsCatgraph (error : ℚ) :
    (kindsCatgraph error).Modulates (fun _ ↦ 2) fun _ _ _ ↦ 1 where
  modulate couplings _ _ _ _ := by
    refine congrArg Except.ok (Eq.symm ((List.map_congr_left ?_).trans (List.map_id _)))
    rintro ⟨i, j, p⟩ -
    exact congrArg (fun p ↦ (i, j, p)) (one_mul p)

/-- Agents 1 and 2 have the first role, the others the second one. -/
def sampleRoles : TypedConfig (kindsCatgraph 0) where
  roles id := if id < 3 then some 0 else some 1
  rho := ()

theorem covers_sampleRoles (required : UInt32) (agents : List CapabilityAgent) :
    sampleRoles.Covers (fun _ ↦ 2) required agents := by
  intro a _ _
  by_cases hid : a.id < 3
  · exact ⟨0, if_pos hid, by decide⟩
  · exact ⟨1, if_neg hid, by decide⟩

theorem the_sample_is_unmodulated :
    ActAlike ((samplePolicy.withRoleModulation sampleRoles).shouldJoin ⟨3, 0b10, 50⟩
        [⟨1, 0b01, 50⟩] ⟨0b11⟩)
      (samplePolicy.shouldJoin ⟨3, 0b10, 50⟩ [⟨1, 0b01, 50⟩] ⟨0b11⟩) none none ∧
    ActAlike ((samplePolicy.withRoleModulation sampleRoles).shouldLeave ⟨3, 0b10, 50⟩
        [⟨1, 0b01, 50⟩, ⟨3, 0b10, 50⟩] ⟨0b11⟩)
      (samplePolicy.shouldLeave ⟨3, 0b10, 50⟩ [⟨1, 0b01, 50⟩, ⟨3, 0b10, 50⟩] ⟨0b11⟩) none none ∧
    ∃ values guard,
      ([[⟨1, 0b01, 50⟩], [⟨1, 0b01, 50⟩, ⟨3, 0b10, 50⟩]].mapM
        ((⟨0b11, none⟩ : MagnitudeValueCalculator (kindsCatgraph 0)).withRoleModulation
          sampleRoles).calculateValue).run none = some (values, none) ∧
      ([[⟨1, 0b01, 50⟩], [⟨1, 0b01, 50⟩, ⟨3, 0b10, 50⟩]].mapM
        (⟨0b11, none⟩ : MagnitudeValueCalculator (kindsCatgraph 0)).calculateValue).run none =
          some (values, guard) := by
  have hsample := identity_modulation exact_kindsCatgraph_zero (modulates_kindsCatgraph 0)
    sampleRoles fun _ _ _ _ ↦ rfl
  have hstart : Call.Reachable (none : Option (EvaluatorCache (kindsCatgraph 0))) := ⟨[], [], rfl⟩
  have hown : ∀ a ∈ ([⟨1, 0b01, 50⟩, ⟨3, 0b10, 50⟩] : List CapabilityAgent), a.id = 3 →
      a.capabilities = 0b10 := by decide
  refine ⟨(hsample.1 samplePolicy rfl _ _ _ none none hstart hstart).1 (covers_sampleRoles _ _),
    (hsample.1 samplePolicy rfl ⟨3, 0b10, 50⟩ _ _ none none hstart hstart).2
      (covers_sampleRoles _ _) fun _ ↦ hown, ?_⟩
  exact hsample.2 ⟨0b11, none⟩ rfl _ fun _ _ ↦ covers_sampleRoles _ _

/-- The leaver that is listed after another agent of its id goes, with a modulation by ones, and
stays without. -/
theorem namesake_is_modulated :
    (kindsCatgraph 0).Exact ∧ (kindsCatgraph 0).Modulates (fun _ ↦ 2) (fun _ _ _ ↦ 1) ∧
      sampleRoles.Identity (fun _ ↦ 2) (fun _ _ _ ↦ 1) ∧
      sampleRoles.Covers (fun _ ↦ 2) 0b11
        [⟨1, 0b10, 50⟩, ⟨1, 0b01, 50⟩, ⟨2, 0b10, 50⟩] ∧
      samplePolicy.typed = none ∧
      ¬ActAlike ((samplePolicy.withRoleModulation sampleRoles).shouldLeave ⟨1, 0b01, 50⟩
          [⟨1, 0b10, 50⟩, ⟨1, 0b01, 50⟩, ⟨2, 0b10, 50⟩] ⟨0b11⟩)
        (samplePolicy.shouldLeave ⟨1, 0b01, 50⟩
          [⟨1, 0b10, 50⟩, ⟨1, 0b01, 50⟩, ⟨2, 0b10, 50⟩] ⟨0b11⟩) none none := by
  refine ⟨exact_kindsCatgraph_zero, modulates_kindsCatgraph 0, fun _ _ _ _ ↦ rfl,
    covers_sampleRoles _ _, rfl, ?_⟩
  have htyped : (((samplePolicy.withRoleModulation sampleRoles).shouldLeave ⟨1, 0b01, 50⟩
      [⟨1, 0b10, 50⟩, ⟨1, 0b01, 50⟩, ⟨2, 0b10, 50⟩] ⟨0b11⟩).run none).map (·.1.act) =
        some true := by decide +kernel
  have hplain : ((samplePolicy.shouldLeave ⟨1, 0b01, 50⟩
      [⟨1, 0b10, 50⟩, ⟨1, 0b01, 50⟩, ⟨2, 0b10, 50⟩] ⟨0b11⟩).run none).map (·.1.act) =
        some false := by decide +kernel
  rintro ⟨decision, _, hrun, decision', _, hrun', hacts⟩
  rw [hrun, Option.map_some, Option.some_inj] at htyped
  rw [hrun', Option.map_some, Option.some_inj] at hplain
  rw [htyped, hplain] at hacts
  exact Bool.noConfusion hacts

end Koalisi.Decision
