import Koalisi.Lib.Settles
import Koalisi.Decision.Fresh
import Koalisi.Decision.Members

/-!
# The evaluator cache

The cache outlives a task.  What it holds is always an evaluator that was built for the
members and the registry it stands next to, and the registry has no mask twice and is not
too long.  Whatever is asked of it is then answered as if it were computed afresh, and where
no evaluator can be built, the members have no magnitude.

So every decision comes out as two fresh magnitudes would have it: far from the threshold
the error of an evaluator does not matter, and near to it the evaluator is not asked.
-/

namespace Koalisi.Decision

open Koalisi.Lib
open Koalisi.Harness (CapabilityAgent)
open Koalisi.Topology (Decision DecisionContext)

variable {K : Type} [Field K] [LinearOrder K] {cg : CatgraphMagnitude K}

/-! ## What the cache holds -/

/-- The evaluator is the one for the members and the registry. -/
structure EvaluatorCache.Coherent (c : EvaluatorCache cg) : Prop where
  nodup : c.candidateMasks.Nodup
  le_cap : c.candidateMasks.length ≤ registryCap
  built : buildEvaluator cg c.required c.memberMasks c.candidateMasks = .ok c.evaluator

/-- The cache is empty, or coherent. -/
def Sound (guard : Option (EvaluatorCache cg)) : Prop := ∀ c ∈ guard, c.Coherent

theorem sound_none : Sound (none : Option (EvaluatorCache cg)) := by
  intro c h
  cases h

/-- The cache is coherent, and for this task and these members. -/
structure EvaluatorCache.Stands (c : EvaluatorCache cg) (required : UInt32)
    (memberMasks : List UInt32) : Prop extends c.Coherent where
  required_eq : c.required = required
  memberMasks_eq : c.memberMasks = memberMasks

variable {required : UInt32} {memberMasks : List UInt32} {guard : Option (EvaluatorCache cg)}
  {c : EvaluatorCache cg}

theorem EvaluatorCache.Stands.sound (h : c.Stands required memberMasks) : Sound (some c) := by
  rintro c' ⟨⟩
  exact h.toCoherent

/-! ## What each step does -/

omit [Field K] [LinearOrder K] in
theorem populated_settles :
    Settles (ExceptT.lift (ε := cg.CatgraphError) (populated cg)).run (some c) fun r guard' ↦
      r = .ok c ∧ guard' = some c :=
  ⟨.ok c, some c, rfl, rfl, rfl⟩

omit [Field K] [LinearOrder K] in
theorem set_settles (guard' : Option (EvaluatorCache cg)) :
    Settles (ExceptT.lift (ε := cg.CatgraphError) (set guard' : Locked cg PUnit)).run guard
      fun r guard'' ↦ r = .ok ⟨⟩ ∧ guard'' = guard' :=
  ⟨.ok ⟨⟩, guard', rfl, rfl, rfl⟩

omit [Field K] [LinearOrder K] in
theorem orLeave_settles {α : Type} (r : Except cg.CatgraphError α) :
    Settles (orLeave r).run guard fun r' guard' ↦ r' = r ∧ guard' = guard :=
  .pure ⟨rfl, rfl⟩

theorem registryCap_pos : 0 < registryCap := by decide

/-- The registry that is taken out has room for one more. -/
theorem takeRegistryAndScratch_settles (h : Sound guard) :
    Settles (takeRegistryAndScratch cg) guard fun r guard' ↦
      guard' = none ∧ r.1.Nodup ∧ r.1.length < registryCap := by
  refine .bind (R := fun taken guard' ↦ taken = guard ∧ guard' = none)
    (.modifyGet ⟨rfl, rfl⟩) ?_
  rintro taken guard' ⟨rfl, rfl⟩
  refine .pure ⟨rfl, ?_⟩
  cases taken with
  | none =>
      dsimp only
      split
      · exact ⟨List.nodup_nil, registryCap_pos⟩
      · exact ⟨List.nodup_nil, registryCap_pos⟩
  | some c =>
      dsimp only
      split
      · exact ⟨List.nodup_nil, registryCap_pos⟩
      · next hlt => exact ⟨(h c rfl).nodup, Nat.lt_of_not_le hlt⟩

/-- Registering a candidate or nothing leaves room in the registry where there was some. -/
def Registers (register : List UInt32 → List UInt32) : Prop :=
  ∀ l : List UInt32, l.Nodup → l.length < registryCap →
    (register l).Nodup ∧ (register l).length ≤ registryCap

theorem registers_id : Registers id := fun _ hnodup hlt ↦ ⟨hnodup, hlt.le⟩

theorem nodup_concat {l : List UInt32} {mask : UInt32} (h : l.Nodup) (hmask : mask ∉ l) :
    (l ++ [mask]).Nodup :=
  (List.nodup_append_comm.trans List.nodup_cons).mpr ⟨hmask, h⟩

theorem registers_candidate (mask : UInt32) :
    Registers fun registry ↦ if mask ∈ registry then registry else registry ++ [mask] := by
  intro l hnodup hlt
  dsimp only
  split
  · exact ⟨hnodup, hlt.le⟩
  · next hmask =>
      refine ⟨nodup_concat hnodup hmask, ?_⟩
      rw [List.length_append, List.length_singleton]
      exact hlt

/-- The registry is emptied when it is full, so that a new candidate has room. -/
theorem room_for_candidate (h : c.Coherent) {mask : UInt32} (hmask : mask ∉ c.candidateMasks) :
    ((if registryCap ≤ c.candidateMasks.length then [] else c.candidateMasks) ++ [mask]).Nodup ∧
      ((if registryCap ≤ c.candidateMasks.length then [] else c.candidateMasks) ++
        [mask]).length ≤ registryCap := by
  split
  · exact ⟨List.nodup_singleton mask, registryCap_pos⟩
  · next hlt =>
      refine ⟨nodup_concat h.nodup hmask, ?_⟩
      rw [List.length_append, List.length_singleton]
      exact Nat.lt_of_not_le hlt

variable [IsStrictOrderedRing K]

/-- Where no evaluator is built, the members have no magnitude. -/
theorem toOption_eq_none_of_build (hcg : cg.Exact) (hne : memberMasks ≠ [])
    {registry : List UInt32} {e : cg.CatgraphError}
    (h : buildEvaluator cg required memberMasks registry = .error e) :
    (magnitudeOfMasks cg memberMasks required).toOption = none := by
  rw [← baseValue_buildEvaluator hcg hne, h]
  rfl

theorem EvaluatorCache.Stands.toOption_eq (hcg : cg.Exact) (hne : memberMasks ≠ [])
    (h : c.Stands required memberMasks) :
    (magnitudeOfMasks cg memberMasks required).toOption = some (cg.baseValue c.evaluator) := by
  have hbuilt := h.built
  rw [h.required_eq, h.memberMasks_eq] at hbuilt
  rw [← baseValue_buildEvaluator hcg hne, hbuilt]
  rfl

/-- After this the cache stands for the members, unless these have no magnitude. -/
theorem rebuildUnlessServed_settles (hcg : cg.Exact) (hne : memberMasks ≠ [])
    {register : List UInt32 → List UInt32} (hreg : Registers register) (h : Sound guard) :
    Settles (rebuildUnlessServed cg required memberMasks register).run guard fun r guard' ↦
      (r = .ok () ∧ ∃ c, guard' = some c ∧ c.Stands required memberMasks) ∨
      (∃ e, r = .error e) ∧ guard' = none ∧
        (magnitudeOfMasks cg memberMasks required).toOption = none := by
  refine Settles.andThen (S := fun r guard' ↦ r = .ok guard ∧ guard' = guard)
    (.lift (.get ⟨rfl, rfl⟩)) ?_ (by rintro e _ ⟨⟨⟩, -⟩)
  rintro _ guard' ⟨⟨⟩, rfl⟩
  split
  · next hserved =>
      obtain ⟨c, rfl, hc⟩ := (Option.any_eq_true _ _).mp hserved
      rw [EvaluatorCache.serves, Bool.and_eq_true, beq_iff_eq, beq_iff_eq] at hc
      exact .ok (.inl ⟨rfl, c, rfl, h c rfl, hc.1, hc.2⟩)
  · refine Settles.andThen (S := fun r guard' ↦ ∃ taken, r = .ok taken ∧ guard' = none ∧
      taken.1.Nodup ∧ taken.1.length < registryCap) (.lift (x := takeRegistryAndScratch cg)
        ((takeRegistryAndScratch_settles h).imp fun taken _ h ↦ ⟨taken, rfl, h⟩)) ?_
        (by rintro e _ ⟨_, ⟨⟩, -⟩)
    rintro _ _ ⟨⟨registry, scratch⟩, ⟨⟩, rfl, hnodup, hlt⟩
    obtain ⟨hnodup, hcap⟩ := hreg registry hnodup hlt
    refine Settles.andThen (orLeave_settles _) ?_ ?_
    · rintro evaluator _ ⟨hbuilt, rfl⟩
      exact .lift (.set (.inl ⟨rfl, _, rfl, ⟨hnodup, hcap, hbuilt.symm⟩, rfl, rfl⟩))
    · rintro e _ ⟨hbuilt, rfl⟩
      exact .inr ⟨⟨e, rfl⟩, rfl, toOption_eq_none_of_build hcg hne hbuilt.symm⟩

/-- The magnitude from the cache is the fresh one, and there is none where there is no fresh
one. -/
theorem cachedBase_settles (hcg : cg.Exact) (hne : memberMasks ≠ []) (h : Sound guard) :
    Settles (cachedBase cg required memberMasks).run guard fun r guard' ↦
      Sound guard' ∧ r.toOption = (magnitudeOfMasks cg memberMasks required).toOption := by
  refine Settles.andThen (rebuildUnlessServed_settles hcg hne registers_id h) ?_ ?_
  · rintro _ _ (⟨-, c, rfl, hc⟩ | ⟨⟨e, ⟨⟩⟩, -⟩)
    refine Settles.andThen populated_settles ?_ (by rintro _ _ ⟨⟨⟩, -⟩)
    rintro _ _ ⟨⟨⟩, rfl⟩
    exact .ok ⟨hc.sound, (hc.toOption_eq hcg hne).symm⟩
  · rintro e _ (⟨⟨⟩, -⟩ | ⟨-, rfl, hnone⟩)
    exact ⟨sound_none, hnone.symm⟩

/-- The candidate is in the registry of a cache that stands for the members, unless these have
no magnitude. -/
theorem ensureCachedCandidate_settles (hcg : cg.Exact) (hne : memberMasks ≠ []) (h : Sound guard)
    (candidateCaps : UInt32) :
    Settles (ensureCachedCandidate cg required memberMasks candidateCaps).run guard fun r guard' ↦
      (∃ pos c, r = .ok pos ∧ guard' = some c ∧ c.Stands required memberMasks ∧
        c.candidateMasks[pos]? = some candidateCaps) ∨
      (∃ e, r = .error e) ∧ guard' = none ∧
        (magnitudeOfMasks cg memberMasks required).toOption = none := by
  refine Settles.andThen
    (rebuildUnlessServed_settles hcg hne (registers_candidate candidateCaps) h) ?_ ?_
  · rintro _ _ (⟨-, c, rfl, hc⟩ | ⟨⟨e, ⟨⟩⟩, -⟩)
    refine Settles.andThen populated_settles ?_ (by rintro _ _ ⟨⟨⟩, -⟩)
    rintro _ _ ⟨⟨⟩, rfl⟩
    split
    · next pos hpos =>
        obtain ⟨hlt, hget, -⟩ := List.idxOf?_eq_some_iff.mp hpos
        exact .ok (.inl ⟨pos, c, rfl, rfl, hc, by rw [List.getElem?_eq_getElem hlt, hget]⟩)
    · next hunseen =>
        have hmask : candidateCaps ∉ c.candidateMasks := List.idxOf?_eq_none_iff.mp hunseen
        refine Settles.andThen populated_settles ?_ (by rintro _ _ ⟨⟨⟩, -⟩)
        rintro _ _ ⟨⟨⟩, rfl⟩
        refine Settles.andThen (set_settles none) ?_ (by rintro _ _ ⟨⟨⟩, -⟩)
        rintro _ _ ⟨-, rfl⟩
        obtain rfl := hc.required_eq
        obtain rfl := hc.memberMasks_eq
        obtain ⟨hnodup, hcap⟩ := room_for_candidate hc.toCoherent hmask
        refine Settles.andThen (orLeave_settles _) ?_ ?_
        · rintro evaluator _ ⟨hbuilt, rfl⟩
          refine Settles.andThen (set_settles _) ?_ (by rintro _ _ ⟨⟨⟩, -⟩)
          rintro _ _ ⟨-, rfl⟩
          refine .ok (.inl ⟨_, _, rfl, rfl, ⟨⟨hnodup, hcap, hbuilt.symm⟩, rfl, rfl⟩, ?_⟩)
          rw [← List.getLast?_eq_getElem?, List.getLast?_concat]
        · rintro e _ ⟨hbuilt, rfl⟩
          exact .inr ⟨⟨e, rfl⟩, rfl, toOption_eq_none_of_build hcg hne hbuilt.symm⟩
  · rintro e _ (⟨⟨⟩, -⟩ | ⟨-, rfl, hnone⟩)
    exact .inr ⟨⟨e, rfl⟩, rfl, hnone⟩

/-- The magnitude without the candidate is the fresh one, and the one with it tracks it. -/
theorem cachedBaseAndWith_settles (hcg : cg.Exact) (hne : memberMasks ≠ []) (h : Sound guard)
    (candidateCaps : UInt32) :
    Settles (cachedBaseAndWith cg required memberMasks candidateCaps).run guard fun r guard' ↦
      Sound guard' ∧
        ((∃ eval, r = .ok eval ∧
          (magnitudeOfMasks cg memberMasks required).toOption = some eval.base ∧
          Tracks (magnitudeOfMasks cg (memberMasks ++ [candidateCaps]) required).toOption
            eval.magWith.toOption) ∨
        (∃ e, r = .error e) ∧ (magnitudeOfMasks cg memberMasks required).toOption = none) := by
  refine Settles.andThen (ensureCachedCandidate_settles hcg hne h candidateCaps) ?_ ?_
  · rintro _ _ (⟨pos, c, ⟨⟩, rfl, hc, hpos⟩ | ⟨⟨e, ⟨⟩⟩, -⟩)
    refine Settles.andThen populated_settles ?_ (by rintro _ _ ⟨⟨⟩, -⟩)
    rintro _ _ ⟨⟨⟩, rfl⟩
    have hbuilt := hc.built
    rw [hc.required_eq, hc.memberMasks_eq] at hbuilt
    refine Settles.andThen (set_settles _) ?_ (by rintro _ _ ⟨⟨⟩, -⟩)
    rintro _ _ ⟨-, rfl⟩
    refine .ok ⟨?_, .inl ⟨_, rfl, hc.toOption_eq hcg hne, ?_⟩⟩
    · rintro c' ⟨⟩
      exact ⟨hc.nodup, hc.le_cap, hc.built⟩
    · dsimp only
      rw [hc.memberMasks_eq]
      exact valueWith_buildEvaluator hcg hne hbuilt hpos c.scratch
  · rintro e _ (⟨_, _, ⟨⟩, -⟩ | ⟨-, rfl, hnone⟩)
    exact ⟨sound_none, .inr ⟨⟨e, rfl⟩, hnone⟩⟩

/-! ## Decisions -/

/-- A decision acts as the exact one does.  Its score is on the same side of the threshold, and
right up to an error. -/
structure Freezes (threshold error : K) (exact decision : Decision K) : Prop where
  act_eq : decision.act = exact.act
  lt_score_iff : threshold < decision.score ↔ threshold < exact.score
  score_lt_iff : decision.score < threshold ↔ exact.score < threshold
  score_near : |decision.score - exact.score| ≤ error

theorem Freezes.refl {threshold error : K} (h : 0 ≤ error) (exact : Decision K) :
    Freezes threshold error exact exact where
  act_eq := rfl
  lt_score_iff := Iff.rfl
  score_lt_iff := Iff.rfl
  score_near := by
    rw [sub_self, abs_zero]
    exact h

omit [IsStrictOrderedRing K] in
/-- How wrong a score may be that is computed with an answer. -/
def answerError (magWith : Except cg.CatgraphError K) : K :=
  incrementalRelTol * max |magWith.toOption.getD 0| 1

theorem incrementalRelTol_nonneg : (0 : K) ≤ incrementalRelTol := by
  rw [incrementalRelTol]
  positivity

theorem answerError_nonneg (magWith : Except cg.CatgraphError K) : 0 ≤ answerError magWith :=
  mul_nonneg incrementalRelTol_nonneg (le_trans zero_le_one (le_max_right _ _))

omit [IsStrictOrderedRing K] in
/-- The rules do not look at errors. -/
theorem joinDecisionFromValues_congr {x x' y y' : Except cg.CatgraphError K} {joinMargin : K}
    (hx : x.toOption = x'.toOption) (hy : y.toOption = y'.toOption) :
    joinDecisionFromValues x y joinMargin = joinDecisionFromValues x' y' joinMargin := by
  cases x <;> cases x' <;> cases hx <;> cases y <;> cases y' <;> cases hy <;> rfl

omit [IsStrictOrderedRing K] in
theorem leaveDecisionFromValues_congr {x x' y y' : Except cg.CatgraphError K}
    (hx : x.toOption = x'.toOption) (hy : y.toOption = y'.toOption) :
    leaveDecisionFromValues x y = leaveDecisionFromValues x' y' := by
  cases x <;> cases x' <;> cases hx <;> cases y <;> cases y' <;> cases hy <;> rfl

omit [IsStrictOrderedRing K] in
/-- So does a leave. -/
theorem leaveDecisionFromValues_act_iff {x y : Except cg.CatgraphError K} :
    (leaveDecisionFromValues x y).act = true ↔
      ∃ m' m, x.toOption = some m' ∧ y.toOption = some m ∧ m' - m ≤ 0 := by
  cases x with
  | error => simp [leaveDecisionFromValues, decline, Except.toOption]
  | ok m' =>
      cases y with
      | error => simp [leaveDecisionFromValues, decline, Except.toOption]
      | ok m => simp [leaveDecisionFromValues, isFinite, Except.toOption]

/-- Far from the threshold the answer is on the right side of it. -/
theorem offKnifeEdge_cases {magWith answer : Except cg.CatgraphError K} (base threshold : K)
    (h : Tracks magWith.toOption answer.toOption) :
    (offKnifeEdge magWith answer base threshold).toOption = magWith.toOption ∨
      ∃ m w, magWith = .ok m ∧ offKnifeEdge magWith answer base threshold = .ok w ∧
        Near incrementalRelTol m w ∧ (threshold < w - base ↔ threshold < m - base) ∧
        (w - base < threshold ↔ m - base < threshold) := by
  cases answer with
  | error e =>
      left
      cases magWith with
      | error e' => rfl
      | ok m => cases h
  | ok w =>
      cases magWith with
      | error e' => cases h
      | ok m =>
          cases h with
          | some hnear =>
              rw [offKnifeEdge]
              split
              · exact .inl rfl
              · next hfar =>
                  rw [isKnifeEdge, decide_eq_true_iff, not_le] at hfar
                  refine .inr ⟨m, w, rfl, rfl, hnear, ?_⟩
                  refine sides_of_abs_sub_lt
                    (hnear.abs_sub_lt_of_far incrementalRelTol_nonneg ?_ ?_ hfar)
                  · rw [incrementalRelTol]
                    norm_num
                  · rw [incrementalRelTol, knifeEdgeRelBand]
                    norm_num

/-- What a decision is made from, where these are the fresh magnitudes: the magnitude without the
agent is the fresh one; and so is the one with it, or it is near, and on the same side of the
threshold. -/
structure Answers (threshold : K) (magWith magWithout answerWith answerWithout :
    Except cg.CatgraphError K) : Prop where
  without_eq : answerWithout.toOption = magWithout.toOption
  with_cases : answerWith.toOption = magWith.toOption ∨
    ∃ base m w, answerWithout = .ok base ∧ magWith = .ok m ∧ answerWith = .ok w ∧
      Near incrementalRelTol m w ∧ (threshold < w - base ↔ threshold < m - base) ∧
      (w - base < threshold ↔ m - base < threshold)

omit [IsStrictOrderedRing K] in
theorem Answers.refl (threshold : K) (magWith magWithout : Except cg.CatgraphError K) :
    Answers threshold magWith magWithout magWith magWithout :=
  ⟨rfl, .inl rfl⟩

theorem answers_offKnifeEdge {magWith answer magWithout : Except cg.CatgraphError K}
    {base threshold : K} (h : Tracks magWith.toOption answer.toOption)
    (hbase : magWithout.toOption = some base) :
    Answers threshold magWith magWithout (offKnifeEdge magWith answer base threshold)
      (.ok base) where
  without_eq := hbase.symm
  with_cases := by
    rcases offKnifeEdge_cases base threshold h with heq | ⟨m, w, hm, hw, hsides⟩
    · exact .inl heq
    · exact .inr ⟨base, m, w, rfl, hm, hw, hsides⟩

/-- A join decided with answers. -/
theorem Answers.freezes_join {magWith magWithout x y : Except cg.CatgraphError K} {joinMargin : K}
    (h : Answers joinMargin magWith magWithout x y) :
    Freezes joinMargin (answerError magWith) (joinDecisionFromValues magWith magWithout joinMargin)
      (joinDecisionFromValues x y joinMargin) := by
  rcases h.with_cases with heq | ⟨base, m, w, rfl, rfl, rfl, hnear, hlt, hgt⟩
  · rw [joinDecisionFromValues_congr heq h.without_eq]
    exact .refl (answerError_nonneg _) _
  · have hm : (Except.ok m : Except cg.CatgraphError K).toOption = (Except.ok m).toOption := rfl
    rw [joinDecisionFromValues_congr hm h.without_eq.symm]
    refine ⟨decide_eq_decide.mpr hlt, hlt, hgt, ?_⟩
    change |w - base - (m - base)| ≤ _
    rw [sub_sub_sub_cancel_right]
    exact hnear

/-- A leave decided with answers. -/
theorem Answers.freezes_leave {magIn magOut x y : Except cg.CatgraphError K}
    (h : Answers 0 magIn magOut x y) :
    Freezes 0 (answerError magIn) (leaveDecisionFromValues magIn magOut)
      (leaveDecisionFromValues x y) := by
  rcases h.with_cases with heq | ⟨base, m, w, rfl, rfl, rfl, hnear, hlt, hgt⟩
  · rw [leaveDecisionFromValues_congr heq h.without_eq]
    exact .refl (answerError_nonneg _) _
  · have hm : (Except.ok m : Except cg.CatgraphError K).toOption = (Except.ok m).toOption := rfl
    rw [leaveDecisionFromValues_congr hm h.without_eq.symm]
    refine ⟨decide_eq_decide.mpr ?_, hlt, hgt, ?_⟩
    · rw [← not_lt, ← not_lt, hlt]
    · change |w - base - (m - base)| ≤ _
      rw [sub_sub_sub_cancel_right]
      exact hnear

omit [IsStrictOrderedRing K] in
theorem joinDecisionFromValues_of_none {x y : Except cg.CatgraphError K} {joinMargin : K}
    (hy : y.toOption = none) : joinDecisionFromValues x y joinMargin = decline := by
  cases y with
  | ok => cases hy
  | error => cases x <;> rfl

omit [IsStrictOrderedRing K] in
theorem leaveDecisionFromValues_of_none {x y : Except cg.CatgraphError K}
    (hy : y.toOption = none) : leaveDecisionFromValues x y = decline := by
  cases y with
  | ok => cases hy
  | error => cases x <;> rfl

omit [IsStrictOrderedRing K] in
theorem magnitudeOrZero_of_ne_nil {masks : List UInt32} (h : masks ≠ []) :
    magnitudeOrZero cg masks required = magnitudeOfMasks cg masks required :=
  if_neg fun hempty ↦ h (List.isEmpty_iff.mp hempty)

variable {masksWith masksWithout masksIn masksOut : List UInt32} {candidateCaps leaverCaps : UInt32}

/-- A join as two fresh magnitudes would have it. -/
def freshJoin (cg : CatgraphMagnitude K) (required : UInt32) (masksWith masksWithout : List UInt32)
    (joinMargin : K) : Decision K :=
  joinDecisionFromValues (magnitudeOrZero cg masksWith required)
    (magnitudeOrZero cg masksWithout required) joinMargin

/-- A leave as two fresh magnitudes would have it. -/
def freshLeave (cg : CatgraphMagnitude K) (required : UInt32) (masksIn masksOut : List UInt32) :
    Decision K :=
  leaveDecisionFromValues (magnitudeOrZero cg masksIn required)
    (magnitudeOrZero cg masksOut required)

/-- Joins are decided from answers for the fresh magnitudes. -/
theorem joinDispatch_answers (hcg : cg.Exact) (h : Sound guard) (joinMargin : K)
    (hmasks : masksWith = masksWithout ∨ masksWith = masksWithout ++ [candidateCaps]) :
    Settles (joinDispatch cg required masksWith masksWithout candidateCaps joinMargin) guard
      fun decision guard' ↦ Sound guard' ∧
        ∃ x y, Answers joinMargin (magnitudeOrZero cg masksWith required)
          (magnitudeOrZero cg masksWithout required) x y ∧
            decision = joinDecisionFromValues x y joinMargin := by
  rw [joinDispatch]
  split
  · exact .pure ⟨h, _, _, .refl _ _ _, rfl⟩
  · next hempty =>
      have hne : masksWithout ≠ [] := fun hnil ↦ hempty (List.isEmpty_iff.mpr hnil)
      rcases hmasks with rfl | rfl
      · rw [if_pos rfl, magnitudeOrZero_of_ne_nil hne]
        refine (cachedBase_settles hcg hne h).bind ?_
        rintro r guard' ⟨hsound, hr⟩
        cases r with
        | ok base => exact .pure ⟨hsound, _, _, ⟨hr, .inl hr⟩, rfl⟩
        | error e =>
            exact .pure ⟨hsound, _, _, .refl _ _ _, (joinDecisionFromValues_of_none hr.symm).symm⟩
      · rw [if_neg (by simp), magnitudeOrZero_of_ne_nil hne,
          magnitudeOrZero_of_ne_nil (List.append_ne_nil_of_left_ne_nil hne _)]
        refine (cachedBaseAndWith_settles hcg hne h candidateCaps).bind ?_
        rintro r guard' ⟨hsound, ⟨eval, rfl, hbase, hwith⟩ | ⟨⟨e, rfl⟩, hnone⟩⟩
        · exact .pure ⟨hsound, _, _, answers_offKnifeEdge hwith hbase, rfl⟩
        · exact .pure ⟨hsound, _, _, .refl _ _ _, (joinDecisionFromValues_of_none hnone).symm⟩

/-- So are leaves. -/
theorem leaveDispatchEvaluator_answers (hcg : cg.Exact) (h : Sound guard)
    (hmasks : masksIn = masksOut ∨
      ∃ front back, masksIn = front ++ leaverCaps :: back ∧ masksOut = front ++ back) :
    Settles (leaveDispatchEvaluator cg required masksIn masksOut leaverCaps) guard
      fun decision guard' ↦ Sound guard' ∧
        ∃ x y, Answers 0 (magnitudeOrZero cg masksIn required)
          (magnitudeOrZero cg masksOut required) x y ∧
            decision = leaveDecisionFromValues x y := by
  rw [leaveDispatchEvaluator]
  split
  · exact .pure ⟨h, _, _, .refl _ _ _, rfl⟩
  · next hempty =>
      have hne : masksOut ≠ [] := fun hnil ↦ hempty (List.isEmpty_iff.mpr hnil)
      rcases hmasks with rfl | ⟨front, back, rfl, rfl⟩
      · rw [if_pos rfl, magnitudeOrZero_of_ne_nil hne]
        refine (cachedBase_settles hcg hne h).bind ?_
        rintro r guard' ⟨hsound, hr⟩
        cases r with
        | ok base => exact .pure ⟨hsound, _, _, ⟨hr, .inl hr⟩, rfl⟩
        | error e =>
            exact .pure ⟨hsound, _, _, .refl _ _ _, (leaveDecisionFromValues_of_none hr.symm).symm⟩
      · rw [if_neg (by simp), magnitudeOrZero_of_ne_nil hne,
          magnitudeOrZero_of_ne_nil (List.append_ne_nil_of_right_ne_nil _ (List.cons_ne_nil _ _))]
        refine (cachedBaseAndWith_settles hcg hne h leaverCaps).bind ?_
        rintro r guard' ⟨hsound, ⟨eval, rfl, hbase, hwith⟩ | ⟨⟨e, rfl⟩, hnone⟩⟩
        · rw [← magnitudeOfMasks_move hcg] at hwith
          exact .pure ⟨hsound, _, _, answers_offKnifeEdge hwith hbase, rfl⟩
        · exact .pure ⟨hsound, _, _, .refl _ _ _, (leaveDecisionFromValues_of_none hnone).symm⟩

/-- Joins are decided as two fresh magnitudes would have it. -/
theorem joinDispatch_settles (hcg : cg.Exact) (h : Sound guard) (joinMargin : K)
    (hmasks : masksWith = masksWithout ∨ masksWith = masksWithout ++ [candidateCaps]) :
    Settles (joinDispatch cg required masksWith masksWithout candidateCaps joinMargin) guard
      fun decision guard' ↦ Sound guard' ∧
        Freezes joinMargin (answerError (magnitudeOrZero cg masksWith required))
          (freshJoin cg required masksWith masksWithout joinMargin) decision := by
  refine (joinDispatch_answers hcg h joinMargin hmasks).imp ?_
  rintro _ guard' ⟨hsound, x, y, hanswers, rfl⟩
  exact ⟨hsound, hanswers.freezes_join⟩

/-- So are leaves. -/
theorem leaveDispatchEvaluator_settles (hcg : cg.Exact) (h : Sound guard)
    (hmasks : masksIn = masksOut ∨
      ∃ front back, masksIn = front ++ leaverCaps :: back ∧ masksOut = front ++ back) :
    Settles (leaveDispatchEvaluator cg required masksIn masksOut leaverCaps) guard
      fun decision guard' ↦ Sound guard' ∧
        Freezes 0 (answerError (magnitudeOrZero cg masksIn required))
          (freshLeave cg required masksIn masksOut) decision := by
  refine (leaveDispatchEvaluator_answers hcg h hmasks).imp ?_
  rintro _ guard' ⟨hsound, x, y, hanswers, rfl⟩
  exact ⟨hsound, hanswers.freezes_leave⟩

/-- The cache stays sound whatever the masks are. -/
theorem leaveDispatchEvaluator_sound (hcg : cg.Exact) (h : Sound guard) :
    Settles (leaveDispatchEvaluator cg required masksIn masksOut leaverCaps) guard
      fun _ guard' ↦ Sound guard' := by
  rw [leaveDispatchEvaluator]
  split
  · exact .pure h
  · next hempty =>
      have hne : masksOut ≠ [] := fun hnil ↦ hempty (List.isEmpty_iff.mpr hnil)
      split
      · refine (cachedBase_settles hcg hne h).bind ?_
        rintro r guard' ⟨hsound, -⟩
        cases r with
        | ok base => exact .pure hsound
        | error e => exact .pure hsound
      · refine (cachedBaseAndWith_settles hcg hne h leaverCaps).bind ?_
        rintro r guard' ⟨hsound, -⟩
        cases r with
        | ok eval => exact .pure hsound
        | error e => exact .pure hsound

end Koalisi.Decision
