import Koalisi.Decision.Freeze
import Koalisi.Decision.Policies

/-!
# Joining and leaving again

An agent that a policy lets into a coalition, and that is asked right after whether it
should leave, should stay.  Both decisions come from the same two values, with and without
the agent, so what is to be shown is that they are the same values, whichever way they are
computed.

A residual policy corrects a score that may come from an evaluator.  The evaluator's error
is kept from the threshold that the magnitude policy compares with, and not from the one
that the corrected score is compared with.  So where an agent lowers the magnitude, and the
correction makes up for just that, the error decides.
-/

namespace Koalisi.Decision

open Koalisi.Lib
open Koalisi.Harness (CapabilityAgent Policy)
open Koalisi.Topology (Decision DecisionContext)

variable {σ K : Type} [Field K] [LinearOrder K]

/-- If the agent should join, then right after it should not leave. -/
def NoThrash (policy : Policy σ K) (s : σ) (agent : CapabilityAgent)
    (coalition : List CapabilityAgent) (ctx : DecisionContext) : Prop :=
  Settles (policy.shouldJoin agent coalition ctx) s fun joined s' ↦ joined.act = true →
    Settles (policy.shouldLeave agent (coalition ++ [agent]) ctx) s' fun left _ ↦
      left.act = false

variable {agent : CapabilityAgent} {coalition : List CapabilityAgent} {ctx : DecisionContext}

/-! ## Thresholds -/

theorem ThresholdPolicy.noThrash (policy : ThresholdPolicy K)
    (hthreshold : policy.leaveThreshold ≤ policy.joinThreshold)
    (hx : agent.id ∉ coalition.map (·.id)) : NoThrash policy.consulted () agent coalition ctx := by
  refine .pure fun hjoin ↦ .pure ?_
  rw [ThresholdPolicy.shouldJoin] at hjoin
  rw [ThresholdPolicy.shouldLeave, filter_concat hx]
  cases hm : ThresholdPolicy.marginal (policy.calculator (coalition ++ [agent]))
      (policy.calculator coalition) with
  | none => rfl
  | some m =>
      rw [hm] at hjoin
      exact decide_eq_false (not_lt.mpr (hthreshold.trans (of_decide_eq_true hjoin)))

/-! ## Magnitudes -/

/-- The newcomer's leave is decided from the masks that its join was decided from. -/
theorem leaveMasks_concat (hx : agent.id ∉ coalition.map (·.id)) (required : UInt32) :
    leaveMasks agent (coalition ++ [agent]) required = joinMasks agent coalition required := by
  rw [leaveMasks, joinMasks, filter_concat hx]

variable {cg : CatgraphMagnitude K}

omit [Field K] [LinearOrder K] in
theorem typedLeaveSides_concat (hx : agent.id ∉ coalition.map (·.id)) (cfg : TypedConfig cg)
    (required : UInt32) :
    typedLeaveSides cg cfg agent (coalition ++ [agent]) required =
      typedJoinSides cg cfg agent coalition required := by
  rw [typedLeaveSides, typedJoinSides, filter_concat hx]
  cases typedRelevantMasks coalition required cfg.roles with
  | none => cases typedRelevantMasks (coalition ++ [agent]) required cfg.roles <;> rfl
  | some without => cases typedRelevantMasks (coalition ++ [agent]) required cfg.roles <;> rfl

/-- The two rules on the same values: a decline, or one margin. -/
theorem decisionFromValues_cases (x y : Except cg.CatgraphError K) (joinMargin : K) :
    (joinDecisionFromValues x y joinMargin = decline ∧ leaveDecisionFromValues x y = decline) ∨
      ∃ margin, joinDecisionFromValues x y joinMargin = ⟨joinMargin < margin, margin⟩ ∧
        leaveDecisionFromValues x y = ⟨margin ≤ 0, margin⟩ := by
  cases x with
  | error => exact .inl ⟨rfl, rfl⟩
  | ok x =>
      cases y with
      | error => exact .inl ⟨rfl, rfl⟩
      | ok y => exact .inr ⟨x - y, rfl, rfl⟩

namespace MagnitudePolicy

/-- A join as fresh magnitudes would have it. -/
def exactJoin (policy : MagnitudePolicy cg) (agent : CapabilityAgent)
    (coalition : List CapabilityAgent) (ctx : DecisionContext) : Decision K :=
  let required := ctx.requiredCapabilities
  match policy.typed with
  | some cfg =>
      match typedJoinSides cg cfg agent coalition required with
      | none => decline
      | some (withAgent, without) =>
          typedJoinDispatch cg cfg required withAgent without policy.joinMargin
  | none =>
      let (masksWith, masksWithout) := joinMasks agent coalition required
      freshJoin cg required masksWith masksWithout policy.joinMargin

/-- A leave as fresh magnitudes would have it. -/
def exactLeave (policy : MagnitudePolicy cg) (agent : CapabilityAgent)
    (coalition : List CapabilityAgent) (ctx : DecisionContext) : Decision K :=
  let required := ctx.requiredCapabilities
  match policy.typed with
  | some cfg =>
      match typedLeaveSides cg cfg agent coalition required with
      | none => decline
      | some (sideIn, sideOut) => typedLeaveDispatch cg cfg required sideIn sideOut
  | none =>
      let (masksIn, masksOut) := leaveMasks agent coalition required
      freshLeave cg required masksIn masksOut

/-- How wrong a score may be: not at all with roles. -/
def scoreError (policy : MagnitudePolicy cg) (agent : CapabilityAgent)
    (coalition : List CapabilityAgent) (ctx : DecisionContext) : K :=
  match policy.typed with
  | some _ => 0
  | none =>
      answerError (magnitudeOrZero cg
        (joinMasks agent coalition ctx.requiredCapabilities).1 ctx.requiredCapabilities)

variable {policy : MagnitudePolicy cg}

/-- Both are declined, or they are about one margin. -/
theorem exact_cases (policy : MagnitudePolicy cg) (hx : agent.id ∉ coalition.map (·.id)) :
    (policy.exactJoin agent coalition ctx = decline ∧
      policy.exactLeave agent (coalition ++ [agent]) ctx = decline) ∨
    ∃ margin, policy.exactJoin agent coalition ctx = ⟨policy.joinMargin < margin, margin⟩ ∧
      policy.exactLeave agent (coalition ++ [agent]) ctx = ⟨margin ≤ 0, margin⟩ := by
  rw [exactJoin, exactLeave]
  dsimp only
  rw [leaveMasks_concat hx]
  cases policy.typed with
  | none => exact decisionFromValues_cases _ _ _
  | some cfg =>
      dsimp only
      rw [typedLeaveSides_concat hx]
      cases typedJoinSides cg cfg agent coalition ctx.requiredCapabilities with
      | none => exact .inl ⟨rfl, rfl⟩
      | some sides => exact decisionFromValues_cases _ _ _

variable [IsStrictOrderedRing K] {guard : Option (EvaluatorCache cg)}

theorem shouldJoin_settles (hcg : cg.Exact) (h : Sound guard) (policy : MagnitudePolicy cg) :
    Settles (policy.shouldJoin agent coalition ctx) guard fun joined guard' ↦ Sound guard' ∧
      Freezes policy.joinMargin (policy.scoreError agent coalition ctx)
        (policy.exactJoin agent coalition ctx) joined := by
  rw [shouldJoin, exactJoin, scoreError]
  cases policy.typed with
  | none => exact joinDispatch_settles hcg h policy.joinMargin joinMasks_cases
  | some cfg =>
      dsimp only
      cases typedJoinSides cg cfg agent coalition ctx.requiredCapabilities with
      | none => exact .pure ⟨h, .refl le_rfl _⟩
      | some sides => exact .pure ⟨h, .refl le_rfl _⟩

theorem shouldLeave_settles (hcg : cg.Exact) (h : Sound guard) (policy : MagnitudePolicy cg)
    (hx : agent.id ∉ coalition.map (·.id)) :
    Settles (policy.shouldLeave agent (coalition ++ [agent]) ctx) guard fun left guard' ↦
      Sound guard' ∧ Freezes 0 (policy.scoreError agent coalition ctx)
        (policy.exactLeave agent (coalition ++ [agent]) ctx) left := by
  cases htyped : policy.typed with
  | none =>
      have hown : (Call.leave policy agent (coalition ++ [agent]) ctx).OwnMask := by
        intro a ha hid
        rcases List.mem_append.mp ha with ha | ha
        · exact absurd (hid ▸ List.mem_map_of_mem ha) hx
        · rw [List.mem_singleton.mp ha]
      have hanswer := Call.answer_settles hcg (.leave policy agent (coalition ++ [agent]) ctx)
        htyped hown h
      rw [exactLeave, scoreError, htyped]
      dsimp only
      rw [← leaveMasks_concat hx]
      exact hanswer
  | some cfg =>
      rw [shouldLeave, exactLeave, scoreError, htyped]
      dsimp only
      cases typedLeaveSides cg cfg agent (coalition ++ [agent]) ctx.requiredCapabilities with
      | none => exact .pure ⟨h, .refl le_rfl _⟩
      | some sides => exact .pure ⟨h, .refl le_rfl _⟩

/-- A newcomer that joins raises the magnitude, and does not leave for not raising it. -/
theorem noThrash (hcg : cg.Exact) (h : Sound guard) (policy : MagnitudePolicy cg)
    (hmargin : 0 ≤ policy.joinMargin) (hx : agent.id ∉ coalition.map (·.id)) :
    NoThrash policy.consulted guard agent coalition ctx := by
  refine (shouldJoin_settles hcg h policy).imp ?_
  rintro joined guard' ⟨hsound, hjoined⟩ hact
  refine (shouldLeave_settles hcg hsound policy hx).imp ?_
  rintro left _ ⟨-, hleft⟩
  rw [hjoined.act_eq] at hact
  rw [hleft.act_eq]
  rcases policy.exact_cases hx with ⟨-, heq⟩ | ⟨margin, heq, heq'⟩
  · rw [heq]
    rfl
  · rw [heq] at hact
    rw [heq']
    exact decide_eq_false (not_le.mpr (hmargin.trans_lt (of_decide_eq_true hact)))

end MagnitudePolicy

/-! ## Residuals -/

namespace ResidualPolicy

omit [Field K] [LinearOrder K] in
theorem mapM_concat {α β : Type} (f : α → Option β) (l : List α) (a : α) :
    (l ++ [a]).mapM f = (l.mapM f).bind fun bs ↦ (f a).map fun b ↦ bs ++ [b] := by
  rw [List.mapM_append]
  cases l.mapM f with
  | none => rfl
  | some bs => cases h : f a <;> simp [h]

/-- What the newcomer would cover, at the policy's rate. -/
def newcomerCorrection (policy : ResidualPolicy cg) (agent : CapabilityAgent)
    (coalition : List CapabilityAgent) : K :=
  match policy.staff coalition, policy.staffOf agent with
  | some without, some joined => policy.correction without (without ++ [joined])
  | _, _ => 0

/-- The newcomer lowers the magnitude, the correction makes up for that, and which of the two
is larger is within the error of an evaluator. -/
structure OnTheEdge (policy : ResidualPolicy cg) (agent : CapabilityAgent)
    (coalition : List CapabilityAgent) (ctx : DecisionContext) : Prop where
  untyped : policy.inner.typed = none
  lowers : (policy.inner.exactJoin agent coalition ctx).score < 0
  corrected : 0 < policy.newcomerCorrection agent coalition
  cancels : |(policy.inner.exactJoin agent coalition ctx).score +
    policy.newcomerCorrection agent coalition| ≤ policy.inner.scoreError agent coalition ctx

omit [Field K] [LinearOrder K] in
theorem askInner_settles {x : Locked cg (Decision K)} {s : ResidualState cg}
    {Q : Decision K → Option (EvaluatorCache cg) → Prop} (h : Settles x s.cache Q) :
    Settles (askInner x) s fun decision s' ↦ Q decision s'.cache := by
  obtain ⟨decision, cache, hrun, hq⟩ := h
  refine ⟨decision, { s with cache }, ?_, hq⟩
  change (x.run s.cache).bind _ = _
  rw [hrun]
  rfl

theorem evaluationFailed_comm (left right : List CapabilityAgent) (required : UInt32) :
    evaluationFailed cg left right required = evaluationFailed cg right left required :=
  Bool.or_comm _ _

variable [IsStrictOrderedRing K]

theorem correction_nonneg (policy : ResidualPolicy cg)
    (without withAgent : List (RoleId × UInt32)) : 0 ≤ policy.correction without withAgent :=
  mul_nonneg policy.lambda_nonneg (Nat.cast_nonneg _)

/-- Two scores for one margin, corrected: the first does not rise above the margin to join while
the second falls to zero, except on the edge. -/
theorem on_the_edge {joinMargin error margin joined left correction : K} (hmargin : 0 ≤ joinMargin)
    (hcorrection : 0 ≤ correction) (hjoined : joinMargin < joined ↔ joinMargin < margin)
    (hleft : 0 < left ↔ 0 < margin) (hleft' : left < 0 ↔ margin < 0)
    (hnear : |joined - margin| ≤ error) (hnear' : |left - margin| ≤ error)
    (hacts : joinMargin < joined + correction) (hleaves : left + correction ≤ 0) :
    margin < 0 ∧ 0 < correction ∧ |margin + correction| ≤ error := by
  have hpos : 0 < correction := by
    refine hcorrection.lt_of_ne fun hzero ↦ ?_
    -- without a correction both scores are on the margin's side
    rw [← hzero, add_zero] at hacts hleaves
    have := hleft.mpr (hmargin.trans_lt (hjoined.mp hacts))
    exact absurd hleaves (not_le.mpr this)
  have hlow : margin < 0 := hleft'.mp (by linarith)
  refine ⟨hlow, hpos, abs_le.mpr ?_⟩
  rw [abs_le] at hnear hnear'
  constructor <;> linarith

/-- Only on the edge the corrected scores act against each other. -/
theorem onTheEdge_of_acts {policy : ResidualPolicy cg} (hmargin : 0 ≤ policy.inner.joinMargin)
    (hx : agent.id ∉ coalition.map (·.id)) {base base' : Decision K}
    (hbase : Freezes policy.inner.joinMargin (policy.inner.scoreError agent coalition ctx)
      (policy.inner.exactJoin agent coalition ctx) base)
    (hbase' : Freezes 0 (policy.inner.scoreError agent coalition ctx)
      (policy.inner.exactLeave agent (coalition ++ [agent]) ctx) base')
    (hacts : policy.inner.joinMargin < base.score + policy.newcomerCorrection agent coalition)
    (hleaves : base'.score + policy.newcomerCorrection agent coalition ≤ 0) :
    policy.OnTheEdge agent coalition ctx := by
  have hscore : (policy.inner.exactLeave agent (coalition ++ [agent]) ctx).score =
      (policy.inner.exactJoin agent coalition ctx).score := by
    rcases policy.inner.exact_cases hx with ⟨heq, heq'⟩ | ⟨margin, heq, heq'⟩
    · rw [heq, heq']
    · rw [heq, heq']
  have hnonneg : 0 ≤ policy.newcomerCorrection agent coalition := by
    rw [newcomerCorrection]
    split
    · exact policy.correction_nonneg _ _
    · exact le_rfl
  have hnear' := hbase'.score_near
  have hleft := hbase'.lt_score_iff
  have hleft' := hbase'.score_lt_iff
  rw [hscore] at hnear' hleft hleft'
  obtain ⟨hlow, hpos, hcancels⟩ := on_the_edge hmargin hnonneg hbase.lt_score_iff hleft hleft'
    hbase.score_near hnear' hacts hleaves
  refine ⟨?_, hlow, hpos, hcancels⟩
  cases htyped : policy.inner.typed with
  | none => rfl
  | some cfg =>
      -- with roles the score is the margin itself
      have hzero : policy.inner.scoreError agent coalition ctx = 0 := by
        rw [MagnitudePolicy.scoreError, htyped]
      have hbase0 := hbase.score_near
      rw [hzero, abs_nonpos_iff, sub_eq_zero] at hbase0
      rw [hzero, abs_nonpos_iff] at hcancels
      rw [hbase0, hcancels] at hacts
      exact absurd hacts (not_lt.mpr hmargin)

/-- Except on the edge, a newcomer that joins for its corrected margin does not leave for it. -/
theorem noThrash (hcg : cg.Exact) {s : ResidualState cg} (h : Sound s.cache)
    (policy : ResidualPolicy cg) (hmargin : 0 ≤ policy.inner.joinMargin)
    (hx : agent.id ∉ coalition.map (·.id)) (hedge : ¬policy.OnTheEdge agent coalition ctx) :
    NoThrash policy.consulted s agent coalition ctx := by
  have hstaff : policy.staff (coalition ++ [agent]) =
      (policy.staff coalition).bind fun l ↦ (policy.staffOf agent).map fun j ↦ l ++ [j] :=
    mapM_concat policy.staffOf coalition agent
  change Settles (policy.shouldJoin agent coalition ctx) s fun joined s' ↦ joined.act = true →
    Settles (policy.shouldLeave agent (coalition ++ [agent]) ctx) s' fun left _ ↦ left.act = false
  have hforward : policy.staff (coalition ++ [agent]) = none →
      Settles (askInner (policy.inner.shouldJoin agent coalition ctx)) s fun joined s' ↦
        joined.act = true → Settles (policy.shouldLeave agent (coalition ++ [agent]) ctx) s'
          fun left _ ↦ left.act = false := by
    intro hnone
    refine (askInner_settles (policy.inner.noThrash hcg h hmargin hx)).imp ?_
    intro joined s' hleave hact
    rw [shouldLeave, hnone]
    exact askInner_settles (hleave hact)
  cases hwithout : policy.staff coalition with
  | none =>
      rw [shouldJoin, hwithout]
      exact hforward (by rw [hstaff, hwithout]; rfl)
  | some without =>
      cases hjoined : policy.staffOf agent with
      | none =>
          rw [shouldJoin, hwithout, hjoined]
          exact hforward (by rw [hstaff, hwithout, hjoined]; rfl)
      | some joined =>
          have hinside : policy.staff (coalition ++ [agent]) = some (without ++ [joined]) := by
            rw [hstaff, hwithout, hjoined]
            rfl
          have hcorrection : policy.newcomerCorrection agent coalition =
              policy.correction without (without ++ [joined]) := by
            rw [newcomerCorrection, hwithout, hjoined]
          rw [shouldJoin, hwithout, hjoined]
          dsimp only
          split
          · refine .bind (R := fun _ _ ↦ True) (.modifyGet trivial) fun _ _ _ ↦ .pure ?_
            intro hact
            cases hact
          · next hok =>
              refine (askInner_settles
                (policy.inner.shouldJoin_settles hcg h)).bind fun base s' ⟨hsound, hbase⟩ ↦ .pure ?_
              intro hact
              rw [shouldLeave, filter_concat hx, hinside, hwithout]
              dsimp only
              rw [evaluationFailed_comm, if_neg hok]
              refine (askInner_settles
                (policy.inner.shouldLeave_settles hcg hsound hx)).bind fun base' s'' ⟨_, hbase'⟩ ↦
                  .pure ?_
              refine decide_eq_false fun hleaves ↦ hedge ?_
              rw [← hcorrection] at hact hleaves
              exact onTheEdge_of_acts hmargin hx hbase hbase' (of_decide_eq_true hact) hleaves

end ResidualPolicy

/-- A newcomer that a policy lets in does not leave right after: not with thresholds that do not
cross; not with a magnitude policy, whatever its cache was used for; and not with a residual
policy over one, except on the edge. -/
theorem no_thrash [IsStrictOrderedRing K] (hcg : cg.Exact) {agent : CapabilityAgent}
    {coalition : List CapabilityAgent} (ctx : DecisionContext)
    (hx : agent.id ∉ coalition.map (·.id)) :
    (∀ policy : ThresholdPolicy K, policy.leaveThreshold ≤ policy.joinThreshold →
      NoThrash policy.consulted () agent coalition ctx) ∧
    (∀ policy : MagnitudePolicy cg, 0 ≤ policy.joinMargin → ∀ guard, Call.Reachable guard →
      NoThrash policy.consulted guard agent coalition ctx) ∧
    ∀ policy : ResidualPolicy cg, 0 ≤ policy.inner.joinMargin → ∀ s : ResidualState cg,
      Call.Reachable s.cache → ¬policy.OnTheEdge agent coalition ctx →
      NoThrash policy.consulted s agent coalition ctx :=
  ⟨fun policy hthreshold ↦ policy.noThrash hthreshold hx,
    fun policy hmargin _ hguard ↦ policy.noThrash hcg (hguard.sound hcg) hmargin hx,
    fun policy hmargin _ hguard hedge ↦ policy.noThrash hcg (hguard.sound hcg) hmargin hx hedge⟩

/-! ## A sample -/

/-- The value is how many members there are. -/
def sampleThresholds : ThresholdPolicy ℚ where
  calculator agents := some agents.length
  joinThreshold := 1
  leaveThreshold := 1

/-- A step of the second role has a price; agents 1 and 2 have the first role, and agent 3 has
the second one. -/
def sampleResidual (error : ℚ) : ResidualPolicy (kindsCatgraph error) where
  inner := ⟨0, .fresh, none⟩
  roles id := if id < 3 then some 0 else some 1
  lambda := 1
  lambda_nonneg := by decide
  residual := ⟨[(⟨1, 1⟩, 1)]⟩

theorem the_sample_stays :
    NoThrash sampleThresholds.consulted () ⟨3, 0b10, 50⟩ [⟨1, 0b01, 50⟩] ⟨0b11⟩ ∧
      NoThrash samplePolicy.consulted none ⟨3, 0b10, 50⟩ [⟨1, 0b01, 50⟩] ⟨0b11⟩ ∧
      NoThrash (sampleResidual 0).consulted ⟨none, 0⟩ ⟨3, 0b10, 50⟩ [⟨1, 0b01, 50⟩] ⟨0b11⟩ := by
  have hsample := @no_thrash ℚ _ _ _ _ exact_kindsCatgraph_zero ⟨3, 0b10, 50⟩
    [⟨1, 0b01, 50⟩] ⟨0b11⟩ (by decide)
  have hstart : Call.Reachable (none : Option (EvaluatorCache (kindsCatgraph 0))) := ⟨[], [], rfl⟩
  refine ⟨hsample.1 sampleThresholds le_rfl, hsample.2.1 samplePolicy le_rfl none hstart,
    hsample.2.2 (sampleResidual 0) le_rfl ⟨none, 0⟩ hstart fun hedge ↦ ?_⟩
  have hscore : ¬((sampleResidual 0).inner.exactJoin ⟨3, 0b10, 50⟩ [⟨1, 0b01, 50⟩] ⟨0b11⟩).score <
      0 := by decide +kernel
  exact hscore hedge.lowers

/-- An agent that can do what two others can do takes their place in the magnitude, and makes up
for it by the step that only it has the role for.  An answer that is a little too large lets it
in, and then it is told to leave. -/
theorem edge_thrashes :
    (kindsCatgraph (1 / 10 ^ 10)).Exact ∧ 0 ≤ (sampleResidual (1 / 10 ^ 10)).inner.joinMargin ∧
      (3 : Nat) ∉ ([⟨1, 0b01, 50⟩, ⟨2, 0b10, 50⟩] : List CapabilityAgent).map (·.id) ∧
      ¬NoThrash (sampleResidual (1 / 10 ^ 10)).consulted ⟨none, 0⟩ ⟨3, 0b11, 50⟩
        [⟨1, 0b01, 50⟩, ⟨2, 0b10, 50⟩] ⟨0b11⟩ := by
  refine ⟨exact_kindsCatgraph (by decide +kernel), le_rfl, by decide, ?_⟩
  have hrun : (((sampleResidual (1 / 10 ^ 10)).consulted.shouldJoin ⟨3, 0b11, 50⟩
      [⟨1, 0b01, 50⟩, ⟨2, 0b10, 50⟩] ⟨0b11⟩).run ⟨none, 0⟩).bind (fun r ↦
        ((((sampleResidual (1 / 10 ^ 10)).consulted.shouldLeave ⟨3, 0b11, 50⟩
          ([⟨1, 0b01, 50⟩, ⟨2, 0b10, 50⟩] ++ [⟨3, 0b11, 50⟩]) ⟨0b11⟩).run r.2).map fun r' ↦
            (r.1.act, r'.1.act))) = some (true, true) := by
    decide +kernel
  rintro ⟨joined, s', hjoin, hleave⟩
  rw [hjoin] at hrun
  rw [Option.bind_some] at hrun
  obtain ⟨⟨left, s''⟩, hleft, hacts⟩ := Option.map_eq_some_iff.mp hrun
  obtain ⟨hjoins, hleaves⟩ := Prod.mk.inj hacts
  have hstays := (hleave hjoins).of_run hleft
  exact Bool.false_ne_true (hstays.symm.trans hleaves)

end Koalisi.Decision
