import Koalisi.Decision.Thrash

/-!
# What a residual policy changes

A residual policy with a rate of zero should decide as the policy that it wraps; with any rate it
should join whenever that one does, and leave only if that one does.

It decides again by the corrected score, and a decline has the score zero.  So it first probes
whether the magnitudes are there, and declines itself if they are not.  The probe knows no roles.
Where the wrapped policy has roles, the probe can see magnitudes that are not there with roles, and
then a decline is taken for a margin of zero; or it can miss some that are there.  These are the
decisions that differ (`conservative_iff`).
-/

namespace Koalisi.Decision

open Koalisi.Lib
open Koalisi.Harness (CapabilityAgent)
open Koalisi.Topology (Decision DecisionContext)

variable {K : Type} [Field K] [LinearOrder K] {cg : CatgraphMagnitude K}
  {agent : CapabilityAgent} {coalition : List CapabilityAgent} {ctx : DecisionContext}

/-! ## The magnitudes behind a decision -/

omit [Field K] [LinearOrder K] in
/-- Two magnitudes, if both are there. -/
def both (x y : Except cg.CatgraphError K) : Option (K × K) := do
  return (← x.toOption, ← y.toOption)

/-- There are magnitudes unless the probe fails. -/
theorem evaluationFailed_eq_false {left right : List CapabilityAgent} {required : UInt32} :
    evaluationFailed cg left right required = false ↔
      (both (magnitudeOrZero cg (relevantMasks left required) required)
        (magnitudeOrZero cg (relevantMasks right required) required)).isSome := by
  simp only [evaluationFailed]
  cases magnitudeOrZero cg (relevantMasks left required) required with
  | error e => simp [both, Except.toOption]
  | ok a =>
      cases magnitudeOrZero cg (relevantMasks right required) required with
      | error e => simp [both, Except.toOption]
      | ok b => simp [both, Except.toOption]

namespace MagnitudePolicy

/-- The magnitudes with and without the agent that a join is decided from. -/
def joinValues (policy : MagnitudePolicy cg) (agent : CapabilityAgent)
    (coalition : List CapabilityAgent) (ctx : DecisionContext) : Option (K × K) :=
  let required := ctx.requiredCapabilities
  match policy.typed with
  | some cfg => do
      let (withAgent, without) ← typedJoinSides cg cfg agent coalition required
      both (typedMagnitudeOrZero cg withAgent required cfg.rho)
        (typedMagnitudeOrZero cg without required cfg.rho)
  | none =>
      let (masksWith, masksWithout) := joinMasks agent coalition required
      both (magnitudeOrZero cg masksWith required) (magnitudeOrZero cg masksWithout required)

/-- The magnitudes with and without the agent that a leave is decided from. -/
def leaveValues (policy : MagnitudePolicy cg) (agent : CapabilityAgent)
    (coalition : List CapabilityAgent) (ctx : DecisionContext) : Option (K × K) :=
  let required := ctx.requiredCapabilities
  match policy.typed with
  | some cfg => do
      let (sideIn, sideOut) ← typedLeaveSides cg cfg agent coalition required
      both (typedMagnitudeOrZero cg sideIn required cfg.rho)
        (typedMagnitudeOrZero cg sideOut required cfg.rho)
  | none =>
      let (masksIn, masksOut) := leaveMasks agent coalition required
      both (magnitudeOrZero cg masksIn required) (magnitudeOrZero cg masksOut required)

end MagnitudePolicy

/-- The decision by a rule from two magnitudes. -/
def fromValues (rule : K → Bool) : Option (K × K) → Decision K
  | none => decline
  | some (m', m) => ⟨rule (m' - m), m' - m⟩

theorem joinDecisionFromValues_eq (x y : Except cg.CatgraphError K) (joinMargin : K) :
    joinDecisionFromValues x y joinMargin = fromValues (joinMargin < ·) (both x y) := by
  cases x with
  | error e => rfl
  | ok m' =>
      cases y with
      | error e => rfl
      | ok m => rfl

theorem leaveDecisionFromValues_eq (x y : Except cg.CatgraphError K) :
    leaveDecisionFromValues x y = fromValues (· ≤ 0) (both x y) := by
  cases x with
  | error e => rfl
  | ok m' =>
      cases y with
      | error e => rfl
      | ok m => rfl

/-- A decision is a decline where the magnitudes are not there, and else follows a rule; its score
is the margin, if it is exact. -/
structure Follows (rule : K → Bool) (exact : Prop) (values : Option (K × K))
    (decision : Decision K) : Prop where
  declines : values = none → decision = decline
  act_eq : values.isSome → decision.act = rule decision.score
  score_eq : exact → ∀ m' m, values = some (m', m) → decision.score = m' - m

omit [LinearOrder K] in
theorem follows_fromValues (rule : K → Bool) (exact : Prop) (values : Option (K × K)) :
    Follows rule exact values (fromValues rule values) := by
  cases values with
  | none => exact ⟨fun _ ↦ rfl, fun h ↦ (nomatch h), fun _ _ _ h ↦ (nomatch h)⟩
  | some p =>
      refine ⟨fun h ↦ (nomatch h), fun _ ↦ rfl, ?_⟩
      rintro _ m' m ⟨⟩
      rfl

omit [LinearOrder K] in
/-- Other magnitudes may be decided from, if they are there whenever these are. -/
theorem follows_of_isSome_eq {rule : K → Bool} {exact : Prop} {values values' : Option (K × K)}
    (hexact : ¬exact) (h : values'.isSome = values.isSome) :
    Follows rule exact values (fromValues rule values') := by
  obtain ⟨hdeclines, hact, -⟩ := follows_fromValues rule exact values'
  refine ⟨fun hnone ↦ hdeclines ?_, fun hsome ↦ hact (h.trans hsome), fun h ↦ absurd h hexact⟩
  rw [hnone] at h
  exact Option.isNone_iff_eq_none.mp (Option.isSome_eq_false_iff.mp h)

section Dispatch

variable [IsStrictOrderedRing K] {guard : Option (EvaluatorCache cg)}

omit [IsStrictOrderedRing K] in
/-- Answers are there whenever the fresh magnitudes are. -/
theorem Answers.isSome_eq {threshold : K} {magWith magWithout x y : Except cg.CatgraphError K}
    (h : Answers threshold magWith magWithout x y) :
    (both x y).isSome = (both magWith magWithout).isSome := by
  have hx : x.toOption.isSome = magWith.toOption.isSome := by
    rcases h.with_cases with heq | ⟨_, m, w, -, rfl, rfl, -⟩
    · rw [heq]
    · rfl
  have hboth (a b : Except cg.CatgraphError K) :
      (both a b).isSome = (a.toOption.isSome && b.toOption.isSome) := by
    cases a with
    | error e => rfl
    | ok m' => cases b <;> rfl
  rw [hboth, hboth, hx, h.without_eq]

namespace MagnitudePolicy

/-- Joins follow their rule, whatever the cache was used for. -/
theorem shouldJoin_follows (hcg : cg.Exact) (h : Sound guard) (policy : MagnitudePolicy cg) :
    Settles (policy.shouldJoin agent coalition ctx) guard fun joined _ ↦
      Follows (policy.joinMargin < ·) policy.typed.isSome (policy.joinValues agent coalition ctx)
        joined := by
  rw [shouldJoin, joinValues]
  cases policy.typed with
  | none =>
      refine (joinDispatch_answers hcg h policy.joinMargin joinMasks_cases).imp ?_
      rintro _ guard' ⟨-, x, y, hanswers, rfl⟩
      rw [joinDecisionFromValues_eq]
      exact follows_of_isSome_eq Bool.false_ne_true hanswers.isSome_eq
  | some cfg =>
      dsimp only
      cases typedJoinSides cg cfg agent coalition ctx.requiredCapabilities with
      | none => exact .pure (follows_fromValues _ _ none)
      | some sides =>
          refine .pure ?_
          rw [typedJoinDispatch, joinDecisionFromValues_eq]
          exact follows_fromValues _ _ _

/-- So do leaves, if nobody else is listed under the leaver's id. -/
theorem shouldLeave_follows (hcg : cg.Exact) (h : Sound guard) (policy : MagnitudePolicy cg)
    (hown : (Call.leave policy agent coalition ctx).OwnMask) :
    Settles (policy.shouldLeave agent coalition ctx) guard fun left _ ↦
      Follows (· ≤ 0) policy.typed.isSome (policy.leaveValues agent coalition ctx) left := by
  rw [shouldLeave, leaveValues]
  cases policy.typed with
  | none =>
      dsimp only
      cases policy.leaveVariant with
      | fresh =>
          refine .pure ?_
          rw [leaveDecisionFromValues_eq]
          exact follows_fromValues _ _ _
      | evaluator =>
          refine (leaveDispatchEvaluator_answers hcg h (leaveMasks_cases hown)).imp ?_
          rintro _ guard' ⟨-, x, y, hanswers, rfl⟩
          rw [leaveDecisionFromValues_eq]
          exact follows_of_isSome_eq Bool.false_ne_true hanswers.isSome_eq
  | some cfg =>
      dsimp only
      cases typedLeaveSides cg cfg agent coalition ctx.requiredCapabilities with
      | none => exact .pure (follows_fromValues _ _ none)
      | some sides =>
          refine .pure ?_
          rw [typedLeaveDispatch, leaveDecisionFromValues_eq]
          exact follows_fromValues _ _ _

end MagnitudePolicy

end Dispatch

/-! ## Deciding again -/

namespace ResidualPolicy

/-- What a wrapper makes of the decision that it wraps. -/
def decideAgain (failed : Bool) (base : Decision K) (correction : K) (rule : K → Bool) :
    Decision K :=
  if failed then decline else fold base correction rule

variable {failed : Bool} {base : Decision K} {correction joinMargin : K} {rule : K → Bool}

omit [LinearOrder K] in
/-- Without a correction a decision stays if the probe failed and it is a decline, or if the probe
did not fail and it follows the rule. -/
theorem decideAgain_zero_iff :
    decideAgain failed base 0 rule = base ↔
      if failed then base = decline else base.act = rule base.score := by
  obtain ⟨act, score⟩ := base
  cases failed with
  | true => exact eq_comm
  | false =>
      change (⟨rule (score + 0), score + 0⟩ : Decision K) = ⟨act, score⟩ ↔ act = rule score
      rw [add_zero]
      constructor
      · rintro ⟨⟩
        rfl
      · rintro rfl
        rfl

variable [IsStrictOrderedRing K]

/-- A join that stays as it is without a correction also stays with one. -/
theorem decideAgain_joins (h : decideAgain failed base 0 (joinMargin < ·) = base)
    (hcorrection : 0 ≤ correction) (hact : base.act = true) :
    (decideAgain failed base correction (joinMargin < ·)).act = true := by
  rw [decideAgain_zero_iff] at h
  cases failed with
  | true =>
      cases h
      cases hact
  | false =>
      have hlt : joinMargin < base.score := of_decide_eq_true (h.symm.trans hact)
      exact decide_eq_true (hlt.trans_le (le_add_of_nonneg_right hcorrection))

/-- A stay does. -/
theorem decideAgain_leaves (h : decideAgain failed base 0 (· ≤ 0) = base)
    (hcorrection : 0 ≤ correction)
    (hact : (decideAgain failed base correction (· ≤ 0)).act = true) : base.act = true := by
  rw [decideAgain_zero_iff] at h
  cases failed with
  | true => cases hact
  | false =>
      have hle : base.score + correction ≤ 0 := of_decide_eq_true hact
      refine h.trans (decide_eq_true ?_)
      linarith

variable {policy : ResidualPolicy cg} {members : List CapabilityAgent}
  {guard guard' : Option (EvaluatorCache cg)}

omit [IsStrictOrderedRing K] in
/-- Everyone with a role is of the staff. -/
theorem exists_staff (hroles : ∀ a ∈ members, (policy.roles a.id).isSome) :
    ∃ staff, policy.staff members = some staff := by
  induction members with
  | nil => exact ⟨[], rfl⟩
  | cons a members ih =>
      obtain ⟨ha, hmembers⟩ := List.forall_mem_cons.mp hroles
      obtain ⟨role, hrole⟩ := Option.isSome_iff_exists.mp ha
      obtain ⟨staff, hstaff⟩ := ih hmembers
      refine ⟨(role, a.capabilities) :: staff, ?_⟩
      rw [ResidualPolicy.staff, List.mapM_cons, staffOf, hrole]
      rw [ResidualPolicy.staff] at hstaff
      rw [hstaff]
      rfl

omit [IsStrictOrderedRing K] in
theorem correction_of_lambda_eq_zero (h : policy.lambda = 0)
    (without withAgent : List (RoleId × UInt32)) : policy.correction without withAgent = 0 := by
  rw [correction, h, zero_mul]

/-- What a wrapper can make of the decision that it wraps: it declines if the probe failed, and
else decides again with a correction, which there is none of at a rate of zero. -/
def DecidesAgain (policy : ResidualPolicy cg) (failed : Bool) (base : Decision K)
    (rule : K → Bool) (decision : Decision K) : Prop :=
  ∃ correction, 0 ≤ correction ∧ (policy.lambda = 0 → correction = 0) ∧
    decision = decideAgain failed base correction rule

/-- Either it is declined, or the inner policy is asked and its decision corrected. -/
theorem settles_decidesAgain {x : Locked cg (Decision K)} {base : Decision K}
    (hrun : x.run guard = some (base, guard')) (without withAgent : List (RoleId × UInt32))
    (failed : Bool) (rule : K → Bool) (declines : Nat) :
    Settles
      (if failed then countedDecline
        else do
          let base ← askInner x
          return fold base (policy.correction without withAgent) rule)
      ⟨guard, declines⟩ fun decision _ ↦ policy.DecidesAgain failed base rule decision := by
  cases failed with
  | true =>
      refine .bind (R := fun _ _ ↦ True) (.modifyGet trivial) fun _ _ _ ↦ .pure ?_
      exact ⟨0, le_rfl, fun _ ↦ rfl, rfl⟩
  | false =>
      have hbase : Settles x guard fun decision _ ↦ decision = base := ⟨base, guard', hrun, rfl⟩
      refine (askInner_settles (s := ⟨guard, declines⟩) hbase).bind ?_
      rintro _ s' rfl
      exact .pure ⟨_, policy.correction_nonneg _ _, fun h ↦ correction_of_lambda_eq_zero h _ _, rfl⟩

theorem shouldJoin_decidesAgain (hroles : ∀ a ∈ coalition, (policy.roles a.id).isSome)
    (hagent : (policy.roles agent.id).isSome) {base : Decision K} (declines : Nat)
    (hrun : (policy.inner.shouldJoin agent coalition ctx).run guard = some (base, guard')) :
    Settles (policy.shouldJoin agent coalition ctx) ⟨guard, declines⟩ fun decision _ ↦
      policy.DecidesAgain
        (evaluationFailed cg coalition (coalition ++ [agent]) ctx.requiredCapabilities) base
        (policy.inner.joinMargin < ·) decision := by
  obtain ⟨without, hwithout⟩ := exists_staff hroles
  obtain ⟨role, hrole⟩ := Option.isSome_iff_exists.mp hagent
  have hjoined : policy.staffOf agent = some (role, agent.capabilities) := by
    rw [staffOf, hrole]
    rfl
  rw [shouldJoin, hwithout, hjoined]
  exact settles_decidesAgain hrun _ _ _ _ declines

theorem shouldLeave_decidesAgain (hroles : ∀ a ∈ coalition, (policy.roles a.id).isSome)
    {base : Decision K} (declines : Nat)
    (hrun : (policy.inner.shouldLeave agent coalition ctx).run guard = some (base, guard')) :
    Settles (policy.shouldLeave agent coalition ctx) ⟨guard, declines⟩ fun decision _ ↦
      policy.DecidesAgain
        (evaluationFailed cg coalition (coalition.filter fun a ↦ a.id ≠ agent.id)
          ctx.requiredCapabilities) base (· ≤ 0) decision := by
  obtain ⟨inside, hinside⟩ := exists_staff hroles
  have hstay : ∀ a ∈ coalition.filter fun a ↦ a.id ≠ agent.id, (policy.roles a.id).isSome :=
    fun a ha ↦ hroles a (List.mem_of_mem_filter ha)
  obtain ⟨outside, houtside⟩ := exists_staff hstay
  rw [shouldLeave, hinside, houtside]
  exact settles_decidesAgain hrun _ _ _ _ declines

end ResidualPolicy

/-! ## When the probe is right -/

section Probe

variable {failed : Bool} {base : Decision K} {exact : Prop} {values : Option (K × K)}

/-- A join stays as it is if the rule also declines where only the probe or only the policy finds
no magnitudes. -/
theorem decideAgain_join_iff {joinMargin : K}
    (hbase : Follows (joinMargin < ·) exact values base)
    (hexact : failed = true → values.isSome → exact) :
    ResidualPolicy.decideAgain failed base 0 (joinMargin < ·) = base ↔
      (failed = false → values = none → 0 ≤ joinMargin) ∧
        (failed = true → ∀ m' m, values = some (m', m) → m' = m ∧ 0 ≤ joinMargin) := by
  rw [ResidualPolicy.decideAgain_zero_iff]
  cases hvalues : values with
  | none =>
      obtain rfl := hbase.declines hvalues
      cases failed with
      | true => exact iff_of_true rfl ⟨fun h ↦ (nomatch h), fun _ _ _ h ↦ (nomatch h)⟩
      | false =>
          change false = decide (joinMargin < 0) ↔ _
          rw [eq_comm, decide_eq_false_iff_not, not_lt]
          exact ⟨fun h ↦ ⟨fun _ _ ↦ h, fun h ↦ (nomatch h)⟩, fun h ↦ h.1 rfl rfl⟩
  | some p =>
      have hsome : values.isSome := Option.isSome_iff_exists.mpr ⟨p, hvalues⟩
      have hact := hbase.act_eq hsome
      cases failed with
      | false => exact iff_of_true hact ⟨fun _ h ↦ (nomatch h), fun h ↦ (nomatch h)⟩
      | true =>
          obtain ⟨m', m⟩ := p
          have hscore := hbase.score_eq (hexact rfl hsome) m' m hvalues
          obtain ⟨act, score⟩ := base
          change act = decide (joinMargin < score) at hact
          change score = m' - m at hscore
          constructor
          · rintro ⟨⟩
            refine ⟨fun h ↦ (nomatch h), ?_⟩
            rintro - _ _ ⟨⟩
            rw [eq_comm, decide_eq_false_iff_not, not_lt] at hact
            exact ⟨sub_eq_zero.mp hscore.symm, hact⟩
          · rintro ⟨-, h⟩
            obtain ⟨heq, hmargin⟩ := h rfl m' m rfl
            rw [sub_eq_zero.mpr heq] at hscore
            rw [hscore, decide_eq_false (not_lt.mpr hmargin)] at hact
            rw [hact, hscore]
            rfl

/-- A leave stays as it is only if the probe is right: the rule lets go for a margin of zero. -/
theorem decideAgain_leave_iff (hbase : Follows (· ≤ 0) exact values base) :
    ResidualPolicy.decideAgain failed base 0 (· ≤ 0) = base ↔ (failed = true ↔ values = none) := by
  rw [ResidualPolicy.decideAgain_zero_iff]
  cases hvalues : values with
  | none =>
      obtain rfl := hbase.declines hvalues
      cases failed with
      | true => exact iff_of_true rfl (iff_of_true rfl rfl)
      | false =>
          have hact : ¬false = decide ((0 : K) ≤ 0) := by
            rw [decide_eq_true le_rfl]
            exact Bool.false_ne_true
          exact iff_of_false hact fun h ↦ (nomatch h.mpr rfl)
  | some p =>
      have hact := hbase.act_eq (Option.isSome_iff_exists.mpr ⟨p, hvalues⟩)
      cases failed with
      | false => exact iff_of_true hact ⟨fun h ↦ (nomatch h), fun h ↦ (nomatch h)⟩
      | true =>
          refine iff_of_false ?_ fun h ↦ (nomatch h.mp rfl)
          rintro rfl
          exact Bool.false_ne_true (hact.trans (decide_eq_true le_rfl))

end Probe

namespace MagnitudePolicy

/-- The probe may only be wrong about a join that is declined anyway. -/
structure JoinProbed (inner : MagnitudePolicy cg) (agent : CapabilityAgent)
    (coalition : List CapabilityAgent) (ctx : DecisionContext) : Prop where
  unseen : evaluationFailed cg coalition (coalition ++ [agent]) ctx.requiredCapabilities = false →
    inner.joinValues agent coalition ctx = none → 0 ≤ inner.joinMargin
  imagined : evaluationFailed cg coalition (coalition ++ [agent]) ctx.requiredCapabilities = true →
    ∀ m' m, inner.joinValues agent coalition ctx = some (m', m) → m' = m ∧ 0 ≤ inner.joinMargin

/-- The probe of a leave fails if and only if the policy finds no magnitudes. -/
def LeaveProbed (inner : MagnitudePolicy cg) (agent : CapabilityAgent)
    (coalition : List CapabilityAgent) (ctx : DecisionContext) : Prop :=
  evaluationFailed cg coalition (coalition.filter fun a ↦ a.id ≠ agent.id)
    ctx.requiredCapabilities = true ↔ inner.leaveValues agent coalition ctx = none

variable {inner : MagnitudePolicy cg}

/-- Without roles the policy looks for the magnitudes that the probe looks for. -/
theorem joinValues_isSome (huntyped : inner.typed = none) :
    (inner.joinValues agent coalition ctx).isSome ↔
      evaluationFailed cg coalition (coalition ++ [agent]) ctx.requiredCapabilities = false := by
  rw [ResidualPolicy.evaluationFailed_comm, evaluationFailed_eq_false, joinValues, huntyped]
  rfl

theorem leaveValues_isSome (huntyped : inner.typed = none) :
    (inner.leaveValues agent coalition ctx).isSome ↔
      evaluationFailed cg coalition (coalition.filter fun a ↦ a.id ≠ agent.id)
        ctx.requiredCapabilities = false := by
  rw [evaluationFailed_eq_false, leaveValues, huntyped]
  rfl

/-- So without roles the probe is always right. -/
theorem probed_of_untyped (huntyped : inner.typed = none) :
    inner.JoinProbed agent coalition ctx ∧ inner.LeaveProbed agent coalition ctx := by
  have hjoin : (inner.joinValues agent coalition ctx).isSome ↔ _ := joinValues_isSome huntyped
  refine ⟨⟨fun hok hnone ↦ ?_, fun hfailed m' m hsome ↦ ?_⟩, ?_⟩
  · have hsome := hjoin.mpr hok
    rw [hnone] at hsome
    cases hsome
  · have hok := hjoin.mp (Option.isSome_iff_exists.mpr ⟨_, hsome⟩)
    rw [hfailed] at hok
    cases hok
  · rw [LeaveProbed, ← Bool.not_eq_false, ← leaveValues_isSome huntyped, Bool.not_eq_true,
      Option.isSome_eq_false_iff, Option.isNone_iff_eq_none]

end MagnitudePolicy

/-! ## Conservative wrappers -/

section Conservative

variable (inner : MagnitudePolicy cg) (roles : Nat → Option RoleId) (residual : Residual)
  (guard : Option (EvaluatorCache cg)) (agent : CapabilityAgent)
  (coalition : List CapabilityAgent) (ctx : DecisionContext)

/-- About a join, a wrapper decides as the policy that it wraps if its rate is zero, and acts
whenever that one does. -/
def ConservativeJoin : Prop :=
  Settles (inner.shouldJoin agent coalition ctx) guard fun base _ ↦ ∀ lambda declines,
    Settles ((ResidualPolicy.new inner roles lambda residual).shouldJoin agent coalition ctx)
      ⟨guard, declines⟩ fun decision _ ↦
        ((ResidualPolicy.new inner roles lambda residual).lambda = 0 → decision = base) ∧
          (base.act = true → decision.act = true)

/-- About a leave, it decides the same at a rate of zero, and acts only if that one does. -/
def ConservativeLeave : Prop :=
  Settles (inner.shouldLeave agent coalition ctx) guard fun base _ ↦ ∀ lambda declines,
    Settles ((ResidualPolicy.new inner roles lambda residual).shouldLeave agent coalition ctx)
      ⟨guard, declines⟩ fun decision _ ↦
        ((ResidualPolicy.new inner roles lambda residual).lambda = 0 → decision = base) ∧
          (decision.act = true → base.act = true)

variable {inner roles residual guard agent coalition ctx} [IsStrictOrderedRing K]

omit [IsStrictOrderedRing K] in
/-- Wrappers at all rates decide the same at a rate of zero, and as they should at the others, if
and only if a decision without a correction stays. -/
theorem wrappers_settle_iff {x : Locked cg (Decision K)} {guard' : Option (EvaluatorCache cg)}
    {base : Decision K} (hrun : x.run guard = some (base, guard'))
    {wrapper : K → StateT (ResidualState cg) Option (Decision K)} {failed : Bool} {rule : K → Bool}
    (hwrapper : ∀ lambda declines, Settles (wrapper lambda) ⟨guard, declines⟩ fun decision _ ↦
      (ResidualPolicy.new inner roles lambda residual).DecidesAgain failed base rule decision)
    {follows : Decision K → Decision K → Prop}
    (hfollows : ResidualPolicy.decideAgain failed base 0 rule = base → ∀ correction,
      0 ≤ correction → follows base (ResidualPolicy.decideAgain failed base correction rule)) :
    (Settles x guard fun base _ ↦ ∀ lambda declines,
      Settles (wrapper lambda) ⟨guard, declines⟩ fun decision _ ↦
        ((ResidualPolicy.new inner roles lambda residual).lambda = 0 → decision = base) ∧
          follows base decision) ↔
      ResidualPolicy.decideAgain failed base 0 rule = base := by
  constructor
  · intro h
    have hzero : (ResidualPolicy.new inner roles 0 residual).lambda = 0 := if_pos le_rfl
    obtain ⟨decision, s', -, ⟨hsame, -⟩, correction, -, hcorrection, rfl⟩ :=
      (h.of_run hrun 0 0).and (hwrapper 0 0)
    have hdecision := hsame hzero
    rwa [hcorrection hzero] at hdecision
  · intro hdecision
    refine ⟨base, guard', hrun, fun lambda declines ↦ (hwrapper lambda declines).imp ?_⟩
    rintro _ s' ⟨correction, hnonneg, hcorrection, rfl⟩
    refine ⟨fun hzero ↦ ?_, hfollows hdecision correction hnonneg⟩
    rw [hcorrection hzero]
    exact hdecision

/-- A join is decided conservatively if and only if the probe is right, or the join is declined
anyway. -/
theorem conservativeJoin_iff (hcg : cg.Exact) (hguard : Sound guard)
    (hroles : ∀ a ∈ coalition, (roles a.id).isSome) (hagent : (roles agent.id).isSome) :
    ConservativeJoin inner roles residual guard agent coalition ctx ↔
      inner.JoinProbed agent coalition ctx := by
  obtain ⟨base, guard', hrun, hbase⟩ : Settles (inner.shouldJoin agent coalition ctx) guard _ :=
    inner.shouldJoin_follows hcg hguard
  have hexact (hfailed : evaluationFailed cg coalition (coalition ++ [agent])
      ctx.requiredCapabilities = true) (hsome : (inner.joinValues agent coalition ctx).isSome) :
      inner.typed.isSome := by
    by_contra huntyped
    have hok := (MagnitudePolicy.joinValues_isSome
      (Option.not_isSome_iff_eq_none.mp huntyped)).mp hsome
    rw [hfailed] at hok
    cases hok
  have hwrapper (lambda : K) (declines : Nat) : Settles
      ((ResidualPolicy.new inner roles lambda residual).shouldJoin agent coalition ctx)
      ⟨guard, declines⟩ fun decision _ ↦
        (ResidualPolicy.new inner roles lambda residual).DecidesAgain
          (evaluationFailed cg coalition (coalition ++ [agent]) ctx.requiredCapabilities) base
          (inner.joinMargin < ·) decision :=
    ResidualPolicy.shouldJoin_decidesAgain hroles hagent declines hrun
  refine (wrappers_settle_iff hrun hwrapper fun hdecision _ hnonneg ↦
    ResidualPolicy.decideAgain_joins hdecision hnonneg).trans ?_
  refine (decideAgain_join_iff hbase hexact).trans ⟨?_, ?_⟩
  · rintro ⟨hunseen, himagined⟩
    exact ⟨hunseen, himagined⟩
  · rintro ⟨hunseen, himagined⟩
    exact ⟨hunseen, himagined⟩

/-- A leave is decided conservatively if and only if the probe is right. -/
theorem conservativeLeave_iff (hcg : cg.Exact) (hguard : Sound guard)
    (hroles : ∀ a ∈ coalition, (roles a.id).isSome)
    (hown : (Call.leave inner agent coalition ctx).OwnMask) :
    ConservativeLeave inner roles residual guard agent coalition ctx ↔
      inner.LeaveProbed agent coalition ctx := by
  obtain ⟨base, guard', hrun, hbase⟩ := inner.shouldLeave_follows hcg hguard hown
  refine (wrappers_settle_iff hrun (fun lambda declines ↦
    ResidualPolicy.shouldLeave_decidesAgain hroles declines hrun)
    fun hdecision _ hnonneg ↦ ResidualPolicy.decideAgain_leaves hdecision hnonneg).trans ?_
  exact decideAgain_leave_iff hbase

end Conservative

/-- Whatever policy is wrapped, at whatever rate and for whatever residual, a join is decided
conservatively if and only if the probe is right about it or it is declined anyway, and a leave if
and only if the probe is right about it. -/
theorem conservative_iff [IsStrictOrderedRing K] (hcg : cg.Exact)
    {guard : Option (EvaluatorCache cg)} (hguard : Call.Reachable guard)
    (inner : MagnitudePolicy cg) (roles : Nat → Option RoleId) (residual : Residual)
    (agent : CapabilityAgent) (coalition : List CapabilityAgent) (ctx : DecisionContext)
    (hroles : ∀ a ∈ agent :: coalition, (roles a.id).isSome)
    (hids : (coalition.map (·.id)).Nodup) :
    (ConservativeJoin inner roles residual guard agent coalition ctx ↔
        inner.JoinProbed agent coalition ctx) ∧
      (agent ∈ coalition →
        (ConservativeLeave inner roles residual guard agent coalition ctx ↔
          inner.LeaveProbed agent coalition ctx)) := by
  obtain ⟨hagent, hroles⟩ := List.forall_mem_cons.mp hroles
  have hsound := hguard.sound hcg
  refine ⟨conservativeJoin_iff hcg hsound hroles hagent, fun hmem ↦ ?_⟩
  refine conservativeLeave_iff hcg hsound hroles fun a ha hid ↦ ?_
  rw [List.inj_on_of_nodup_map hids ha hmem hid]

/-! ### A role that the modulation does not know -/

section Example

/-- The engine that counts kinds refuses roles from some number on. -/
def rolesCatgraph : CatgraphMagnitude ℚ :=
  { kindsCatgraph 0 with
    RoleModulation := Nat
    modulate := fun couplings roles rho ↦
      if roles.all (· < rho) then .ok couplings else .error () }

theorem exact_rolesCatgraph : rolesCatgraph.Exact where
  value_congr := exact_kindsCatgraph_zero.value_congr
  new_base := exact_kindsCatgraph_zero.new_base
  value_with := exact_kindsCatgraph_zero.value_with

/-- Two agents, with the roles zero and one. -/
def twoRoles (id : Nat) : Option RoleId := if id = 1 then some 0 else some 1

/-- A policy with a modulation of so many roles. -/
def modulatedPolicy (rho : Nat) : MagnitudePolicy rolesCatgraph := ⟨0, .fresh, some ⟨twoRoles, rho⟩⟩

theorem known_roles_are_conservative :
    ConservativeJoin (modulatedPolicy 2) twoRoles ⟨[]⟩ none ⟨2, 0b10, 50⟩
        [⟨1, 0b01, 50⟩] ⟨0b11⟩ ∧
      ConservativeLeave (modulatedPolicy 2) twoRoles ⟨[]⟩ none ⟨2, 0b10, 50⟩
        [⟨1, 0b01, 50⟩, ⟨2, 0b10, 50⟩] ⟨0b11⟩ := by
  have hstart : Call.Reachable (none : Option (EvaluatorCache rolesCatgraph)) := ⟨[], [], rfl⟩
  have hjoin := conservative_iff exact_rolesCatgraph hstart (modulatedPolicy 2) twoRoles ⟨[]⟩
    ⟨2, 0b10, 50⟩ [⟨1, 0b01, 50⟩] ⟨0b11⟩ (by decide) (by decide)
  have hleave := conservative_iff exact_rolesCatgraph hstart (modulatedPolicy 2) twoRoles ⟨[]⟩
    ⟨2, 0b10, 50⟩ [⟨1, 0b01, 50⟩, ⟨2, 0b10, 50⟩] ⟨0b11⟩ (by decide) (by decide)
  refine ⟨hjoin.1.mpr ⟨fun _ h ↦ ?_, fun h ↦ ?_⟩, (hleave.2 (by decide)).mpr ?_⟩
  · exact absurd (congrArg Option.isSome h) (by decide +kernel)
  · exact absurd h (by decide +kernel)
  · refine iff_of_false (by decide +kernel) fun h ↦ ?_
    exact absurd (congrArg Option.isSome h) (by decide +kernel)

/-- The modulation refuses the second agent's role, which the probe does not see: the policy
declines that the agent leaves, and the wrapper lets it go. -/
theorem unknown_role_leaves :
    rolesCatgraph.Exact ∧ (∀ id, (twoRoles id).isSome) ∧
      ¬ConservativeLeave (modulatedPolicy 1) twoRoles ⟨[]⟩ none ⟨2, 0b10, 50⟩
        [⟨1, 0b01, 50⟩, ⟨2, 0b10, 50⟩] ⟨0b11⟩ := by
  have hroles (id : Nat) : (twoRoles id).isSome := by
    rw [twoRoles]
    split
    · rfl
    · rfl
  refine ⟨exact_rolesCatgraph, hroles, fun h ↦ ?_⟩
  have hown : (Call.leave (modulatedPolicy 1) ⟨2, 0b10, 50⟩
      [⟨1, 0b01, 50⟩, ⟨2, 0b10, 50⟩] ⟨0b11⟩).OwnMask := by
    change ∀ a ∈ ([⟨1, 0b01, 50⟩, ⟨2, 0b10, 50⟩] : List CapabilityAgent),
      a.id = 2 → a.capabilities = 0b10
    decide
  have hprobed := (conservativeLeave_iff exact_rolesCatgraph sound_none (fun a _ ↦ hroles a.id)
    hown).mp h
  have hnone : ((modulatedPolicy 1).leaveValues ⟨2, 0b10, 50⟩
      [⟨1, 0b01, 50⟩, ⟨2, 0b10, 50⟩] ⟨0b11⟩).isSome = false := by decide +kernel
  have hfailed := hprobed.mpr (Option.isNone_iff_eq_none.mp (Option.isSome_eq_false_iff.mp hnone))
  exact absurd hfailed (by decide +kernel)

end Example

end Koalisi.Decision
