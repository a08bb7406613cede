import Koalisi.Decision.Freeze

/-!
# The fast levers

With the levers on, the engine answers for a candidate with a certificate where it can tell that
the candidate changes nothing; then the magnitude without the candidate is taken for the one with
it.  And fresh magnitudes are computed from the skeleton of the coalition, which has the first
member of each class of members that are the same to the engine.

Where numbers are exact, all this is only faster: whoever has the levers on, and whatever the
policies that share a cache are asked, they act as they do without the levers
(`levers_decide_alike`).  A probe, which has a cache of its own, foretells a join up to the
knife's edge.
-/

namespace Koalisi.Decision

open Koalisi.Lib
open Koalisi.Harness (CapabilityAgent)
open Koalisi.Topology (Decision DecisionContext)

variable {K : Type} [Field K] [LinearOrder K] {cg : CatgraphMagnitude K}

/-! ## The engine -/

/-- What the levers use of the engine. -/
structure FastMagnitude (cg : CatgraphMagnitude K) where
  /-- A certificate that a candidate changes nothing. -/
  ZeroDiversityProof : Type
  /-- Members with their closed couplings. -/
  Coalition : Type
  Distance : Type
  LawvereMetricSpace : Type
  ZetaFactorization : Type
  FactorizationPath : Type
  /-- The magnitude with one more agent, and a certificate if there is one. -/
  valueWithReportScratch : cg.CoalitionEvaluator → Nat → cg.EvalScratch →
    Except cg.CatgraphError (K × Option ZeroDiversityProof) × cg.EvalScratch
  unitInterval : K → Except cg.CatgraphError K
  /-- The coalition of the members, among agents with these homs. -/
  fromEnriched : List Nat → List (Coupling K) → List Nat → Except cg.CatgraphError Coalition
  /-- The number of the class of each member. -/
  memberClasses : Coalition → List Nat
  /-- The closed coupling between two members, by their places. -/
  weight : Coalition → Nat → Nat → K
  negLn : K → Distance
  infinity : Distance
  fromDistanceFn : Nat → (Nat → Nat → Distance) → LawvereMetricSpace
  /-- The magnitude of a space at a scale. -/
  magnitudeF64 : LawvereMetricSpace → K → Except cg.CatgraphError K
  newFactorization : LawvereMetricSpace → ZetaFactorization
  path : ZetaFactorization → FactorizationPath
  magnitude : ZetaFactorization → Except cg.CatgraphError K

/-! ## The skeleton -/

/-- Classes are numbered from zero. -/
def classCount (classes : List Nat) : Nat := classes.max?.elim 0 (· + 1)

/-- The place of the first member of each class; none is the largest `usize`, which is no place. -/
def firstMembers (classes : List Nat) : List (Option Nat) :=
  classes.zipIdx.foldl
    (fun reps (c, member) ↦ if reps[c]? = some none then reps.set c (some member) else reps)
    (List.replicate (classCount classes) none)

/-- The place that stands for a class. -/
def representative (classes : List Nat) (a : Nat) : Nat :=
  ((firstMembers classes)[a]?.join).getD (2 ^ 64 - 1)

namespace FastMagnitude

variable (fast : FastMagnitude cg)

/-- The space of the classes of a coalition, if these places stand for them. -/
def skeleton (coalition : fast.Coalition) (rep : Nat → Nat) : fast.LawvereMetricSpace :=
  fast.fromDistanceFn (classCount (fast.memberClasses coalition)) fun a b ↦
    let p := fast.weight coalition (rep a) (rep b)
    if 0 < p then fast.negLn p else fast.infinity

def skeletalSpaceOfMasks (masks : List UInt32) (required : UInt32) :
    Except cg.CatgraphError fast.LawvereMetricSpace := do
  let agents := List.range masks.length
  let homs ← (memberCouplings masks required).mapM fun (i, j, p) ↦
    return (i, j, ← fast.unitInterval p)
  let coalition ← fast.fromEnriched agents homs agents
  return fast.skeleton coalition (representative (fast.memberClasses coalition))

def magnitudeOfMasksF64 (masks : List UInt32) (required : UInt32) : Except cg.CatgraphError K := do
  let space ← fast.skeletalSpaceOfMasks masks required
  fast.magnitudeF64 space 1

/-- How the engine factors what a fresh magnitude is computed from, and the magnitude. -/
def probeFreshFactorization (agents : List CapabilityAgent) (required : UInt32) :
    Option (fast.FactorizationPath × Except cg.CatgraphError K) :=
  let masks := relevantMasks agents required
  if masks.isEmpty then none
  else do
    let space ← (fast.skeletalSpaceOfMasks masks required).toOption
    let factorization := fast.newFactorization space
    return (fast.path factorization, fast.magnitude factorization)

end FastMagnitude

/-! ## The route -/

/-- Whether the levers are on. -/
structure FreshRoute where
  fast : Bool
deriving DecidableEq, Repr

/-- The magnitude without and with the candidate, and a certificate if there is one. -/
structure CertifiedEval (fast : FastMagnitude cg) where
  base : K
  magWith : Except cg.CatgraphError K
  zeroProof : Option fast.ZeroDiversityProof

/-- Like `cachedBaseAndWith`, with a certificate. -/
def cachedBaseAndWithReport (fast : FastMagnitude cg) (required : UInt32)
    (memberMasks : List UInt32) (candidateCaps : UInt32) :
    ExceptT cg.CatgraphError (Locked cg) (CertifiedEval fast) := do
  let pos ← ensureCachedCandidate cg required memberMasks candidateCaps
  let entry ← populated cg
  let base := cg.baseValue entry.evaluator
  let (report, scratch) :=
    fast.valueWithReportScratch entry.evaluator (entry.memberMasks.length + pos) entry.scratch
  set (some { entry with scratch } : Option (EvaluatorCache cg))
  match report with
  | .ok (value, zeroProof) => return { base, magWith := .ok value, zeroProof }
  | .error e => return { base, magWith := .error e, zeroProof := none }

namespace FreshRoute

variable (fast : FastMagnitude cg) (route : FreshRoute)

def proofs : Bool := route.fast

def magnitude (masks : List UInt32) (required : UInt32) : Except cg.CatgraphError K :=
  if route.fast then fast.magnitudeOfMasksF64 masks required
  else magnitudeOfMasks cg masks required

/-- The magnitude of no members is zero. -/
def magnitudeOrZero (masks : List UInt32) (required : UInt32) : Except cg.CatgraphError K :=
  if masks.isEmpty then .ok 0 else route.magnitude fast masks required

def cachedCandidateEval (required : UInt32) (memberMasks : List UInt32) (candidateCaps : UInt32) :
    ExceptT cg.CatgraphError (Locked cg) (CertifiedEval fast) :=
  if route.proofs then cachedBaseAndWithReport fast required memberMasks candidateCaps
  else do
    let eval ← cachedBaseAndWith cg required memberMasks candidateCaps
    return { base := eval.base, magWith := eval.magWith, zeroProof := none }

variable {fast}

/-- The magnitude with the candidate: the one without it if that is certified, and the fresh one
near the threshold. -/
def magWith (fresh : Except cg.CatgraphError K) (eval : CertifiedEval fast) (threshold : K) :
    Except cg.CatgraphError K :=
  match eval.magWith, eval.zeroProof with
  | .ok _, some _ => .ok eval.base
  | answer, _ => offKnifeEdge fresh answer eval.base threshold

variable (fast)

def joinDispatch (required : UInt32) (masksWith masksWithout : List UInt32)
    (candidateCaps : UInt32) (joinMargin : K) : Locked cg (Decision K) := do
  if masksWithout.isEmpty then
    return joinDecisionFromValues (route.magnitudeOrZero fast masksWith required)
      (route.magnitudeOrZero fast masksWithout required) joinMargin
  else if masksWith.length = masksWithout.length then
    -- the candidate does not count
    match ← (cachedBase cg required masksWithout).run with
    | .ok base =>
        return joinDecisionFromValues (.ok base : Except cg.CatgraphError K) (.ok base) joinMargin
    | .error _ => return decline
  else
    match ← (route.cachedCandidateEval fast required masksWithout candidateCaps).run with
    | .ok eval =>
        let answer := magWith (route.magnitude fast masksWith required) eval joinMargin
        return joinDecisionFromValues answer (.ok eval.base) joinMargin
    | .error _ => return decline

def leaveDispatchEvaluator (required : UInt32) (masksIn masksOut : List UInt32)
    (leaverCaps : UInt32) : Locked cg (Decision K) := do
  if masksOut.isEmpty then
    return leaveDecisionFromValues (route.magnitudeOrZero fast masksIn required)
      (route.magnitudeOrZero fast masksOut required)
  else if masksIn.length = masksOut.length then
    -- the leaver does not count
    match ← (cachedBase cg required masksOut).run with
    | .ok base => return leaveDecisionFromValues (.ok base : Except cg.CatgraphError K) (.ok base)
    | .error _ => return decline
  else
    match ← (route.cachedCandidateEval fast required masksOut leaverCaps).run with
    | .ok eval =>
        let answer := magWith (route.magnitude fast masksIn required) eval 0
        return leaveDecisionFromValues answer (.ok eval.base)
    | .error _ => return decline

end FreshRoute

/-! ## The policy -/

/-- A policy that may have the levers on. -/
structure LeverPolicy (cg : CatgraphMagnitude K) extends MagnitudePolicy cg where
  freshRoute : FreshRoute

namespace LeverPolicy

variable (fast : FastMagnitude cg) (policy : LeverPolicy cg)

def withEq3Levers (enabled : Bool) : LeverPolicy cg := { policy with freshRoute := ⟨enabled⟩ }

/-- With roles the levers have no effect. -/
def shouldJoin (agent : CapabilityAgent) (coalition : List CapabilityAgent)
    (ctx : DecisionContext) : Locked cg (Decision K) := do
  let required := ctx.requiredCapabilities
  match policy.typed with
  | some cfg =>
      match typedJoinSides cg cfg agent coalition required with
      | none => return decline
      | some (withAgent, without) =>
          return typedJoinDispatch cg cfg required withAgent without policy.joinMargin
  | none =>
      let (masksWith, masksWithout) := joinMasks agent coalition required
      policy.freshRoute.joinDispatch fast required masksWith masksWithout agent.capabilities
        policy.joinMargin

def shouldLeave (agent : CapabilityAgent) (coalition : List CapabilityAgent)
    (ctx : DecisionContext) : Locked cg (Decision K) := do
  let required := ctx.requiredCapabilities
  match policy.typed with
  | some cfg =>
      match typedLeaveSides cg cfg agent coalition required with
      | none => return decline
      | some (sideIn, sideOut) => return typedLeaveDispatch cg cfg required sideIn sideOut
  | none =>
      let (masksIn, masksOut) := leaveMasks agent coalition required
      match policy.leaveVariant with
      | .fresh =>
          return leaveDecisionFromValues (policy.freshRoute.magnitudeOrZero fast masksIn required)
            (policy.freshRoute.magnitudeOrZero fast masksOut required)
      | .evaluator =>
          policy.freshRoute.leaveDispatchEvaluator fast required masksIn masksOut
            agent.capabilities

end LeverPolicy

/-! ## What is assumed of the engine -/

/-- What the levers rely on, where numbers are exact. -/
structure FastMagnitude.Exact (fast : FastMagnitude cg) : Prop where
  unitInterval_ok : ∀ p, 0 ≤ p → p ≤ 1 → fast.unitInterval p = .ok p
  /-- A report has the same answer. -/
  report_value : ∀ evaluator c scratch,
    ((fast.valueWithReportScratch evaluator c scratch).1.map Prod.fst).toOption =
      (cg.valueWithScratch evaluator c scratch).1.toOption
  /-- What is certified is so. -/
  certified : ∀ agents couplings members c evaluator scratch value proof,
    Valid agents couplings members → cg.newEvaluator agents couplings members 1 = .ok evaluator →
    c ∈ agents → c ∉ members →
    (fast.valueWithReportScratch evaluator c scratch).1 = .ok (value, some proof) →
    (cg.coalitionValue agents couplings (members ++ [c])).toOption =
      (cg.coalitionValue agents couplings members).toOption
  /-- No class is empty. -/
  classes : ∀ agents couplings members coalition, Valid agents couplings members →
    fast.fromEnriched agents couplings members = .ok coalition →
    ∀ a < classCount (fast.memberClasses coalition), a ∈ fast.memberClasses coalition
  /-- Whoever stands for the classes, their space has the magnitude of the coalition. -/
  skeletal : ∀ agents couplings members coalition rep, Valid agents couplings members →
    fast.fromEnriched agents couplings members = .ok coalition →
    (∀ a < classCount (fast.memberClasses coalition),
      (fast.memberClasses coalition)[rep a]? = some a) →
    (fast.magnitudeF64 (fast.skeleton coalition rep) 1).toOption =
      (cg.coalitionValue agents couplings members).toOption
  /-- Where no coalition is formed, there is no magnitude. -/
  unformed : ∀ agents couplings members e, Valid agents couplings members →
    fast.fromEnriched agents couplings members = .error e →
    (cg.coalitionValue agents couplings members).toOption = none
  factored : ∀ space,
    (fast.magnitude (fast.newFactorization space)).toOption = (fast.magnitudeF64 space 1).toOption

/-! ## The first members stand for the classes -/

section Classes

variable {classes : List Nat} {a : Nat}

theorem lt_classCount (h : a ∈ classes) : a < classCount classes := by
  rw [classCount]
  cases hmax : classes.max? with
  | none => exact absurd (List.max?_eq_none_iff.mp hmax) (List.ne_nil_of_mem h)
  | some m => exact Nat.lt_succ_of_le ((List.max?_eq_some_iff.mp hmax).2 a h)

theorem idxOf?_concat (front : List Nat) (c d : Nat) : (front ++ [c]).idxOf? d =
    (front.idxOf? d).or (if c = d then some front.length else none) := by
  unfold List.idxOf?
  rw [List.findIdx?_append, List.findIdx?_singleton]
  congr 1
  by_cases h : c = d
  · rw [if_pos h, if_pos (beq_iff_eq.mpr h), Option.map_some, Nat.zero_add]
  · rw [if_neg h, if_neg (mt beq_iff_eq.mp h), Option.map_none]

/-- The classes at the front of the list, and where each was met first. -/
theorem firstMembers_front (n : Nat) (front : List Nat) (h : ∀ c ∈ front, c < n) :
    front.zipIdx.foldl
      (fun reps (c, member) ↦ if reps[c]? = some none then reps.set c (some member) else reps)
      (List.replicate n none) = (List.range n).map fun c ↦ front.idxOf? c := by
  induction front using List.reverseRecOn with
  | nil =>
      change List.replicate n none = (List.range n).map fun _ ↦ none
      rw [List.map_const', List.length_range]
  | append_singleton front c ih =>
      have hc : c < n := h c (List.mem_append_right _ (List.mem_singleton_self c))
      have hat : ∀ front : List Nat, ((List.range n).map fun c ↦ front.idxOf? c)[c]? =
          some (front.idxOf? c) := by
        intro front
        rw [List.getElem?_map, List.getElem?_range hc, Option.map_some]
      rw [List.zipIdx_append, List.foldl_append, ih fun d hd ↦ h d (List.mem_append_left _ hd),
        Nat.zero_add]
      change (if _ = some none then _ else _) = _
      rw [hat]
      split
      · next hnone =>
          rw [Option.some.injEq] at hnone
          refine List.ext_getElem (by simp) fun d hd hd' ↦ ?_
          rw [List.getElem_set]
          simp only [List.getElem_map, List.getElem_range, idxOf?_concat]
          by_cases hcd : c = d
          · subst hcd
            rw [if_pos rfl, if_pos rfl, hnone, Option.none_or]
          · rw [if_neg hcd, if_neg hcd, Option.or_none]
      · next hsome =>
          rw [Option.some.injEq] at hsome
          refine List.map_congr_left fun d _ ↦ ?_
          rw [idxOf?_concat]
          by_cases hcd : c = d
          · subst hcd
            obtain ⟨m, hm⟩ := Option.ne_none_iff_exists'.mp hsome
            rw [hm, Option.some_or]
          · rw [if_neg hcd, Option.or_none]

/-- The first members stand for the classes, if none is empty. -/
theorem getElem?_representative (h : ∀ b < classCount classes, b ∈ classes)
    (ha : a < classCount classes) : classes[representative classes a]? = some a := by
  have hfirst : (firstMembers classes)[a]? = some (classes.idxOf? a) := by
    rw [firstMembers, firstMembers_front _ _ fun _ ↦ lt_classCount, List.getElem?_map,
      List.getElem?_range ha, Option.map_some]
  cases hidx : classes.idxOf? a with
  | none => exact absurd (h a ha) (List.idxOf?_eq_none_iff.mp hidx)
  | some i =>
      obtain ⟨hlt, hget, -⟩ := List.idxOf?_eq_some_iff.mp hidx
      rw [representative, hfirst, Option.join_some, hidx, Option.getD_some,
        List.getElem?_eq_getElem hlt, hget]

end Classes

/-! ## Both routes lead to the same magnitude -/

section Magnitudes

variable [IsStrictOrderedRing K] {fast : FastMagnitude cg} {required : UInt32}
variable {masks memberMasks : List UInt32} {guard : Option (EvaluatorCache cg)}

omit [IsStrictOrderedRing K] in
/-- Homs between zero and one are taken as they are. -/
theorem FastMagnitude.Exact.homs_eq (hfast : fast.Exact) {couplings : List (Coupling K)}
    (h : ∀ c ∈ couplings, 0 ≤ c.2.2 ∧ c.2.2 ≤ 1) :
    (couplings.mapM fun (i, j, p) ↦ do return (i, j, ← fast.unitInterval p) :
      Except cg.CatgraphError (List (Coupling K))) = .ok couplings := by
  induction couplings with
  | nil => rfl
  | cons c couplings ih =>
      obtain ⟨i, j, p⟩ := c
      obtain ⟨hp, hle⟩ := h _ List.mem_cons_self
      rw [List.mapM_cons, ih fun c hc ↦ h c (List.mem_cons_of_mem _ hc)]
      dsimp only
      rw [hfast.unitInterval_ok p hp hle]
      rfl

theorem FastMagnitude.Exact.skeletalSpace_cases (hfast : fast.Exact) (hne : masks ≠ []) :
    (∃ space, fast.skeletalSpaceOfMasks masks required = .ok space ∧
      (fast.magnitudeF64 space 1).toOption = (magnitudeOfMasks cg masks required).toOption) ∨
    (∃ e, fast.skeletalSpaceOfMasks masks required = .error e) ∧
      (magnitudeOfMasks cg masks required).toOption = none := by
  have hvalid : Valid (List.range masks.length) (memberCouplings masks required : List (Coupling K))
      (List.range masks.length) := valid_members hne
  have hspace : fast.skeletalSpaceOfMasks masks required = do
      let coalition ← fast.fromEnriched (List.range masks.length)
        (memberCouplings masks required) (List.range masks.length)
      return fast.skeleton coalition (representative (fast.memberClasses coalition)) := by
    rw [FastMagnitude.skeletalSpaceOfMasks]
    dsimp only
    rw [hfast.homs_eq fun c hc ↦ (hvalid.bounded _ _ _ hc).2.2.2]
    rfl
  rw [hspace]
  cases hform : fast.fromEnriched (List.range masks.length) (memberCouplings masks required)
      (List.range masks.length) with
  | error e => exact .inr ⟨⟨e, rfl⟩, hfast.unformed _ _ _ e hvalid hform⟩
  | ok coalition =>
      refine .inl ⟨_, rfl, hfast.skeletal _ _ _ _ _ hvalid hform fun a ha ↦ ?_⟩
      exact getElem?_representative (hfast.classes _ _ _ _ hvalid hform) ha

theorem FastMagnitude.Exact.magnitudeOfMasksF64_eq (hfast : fast.Exact) (hne : masks ≠ []) :
    (fast.magnitudeOfMasksF64 masks required).toOption =
      (magnitudeOfMasks cg masks required).toOption := by
  rw [FastMagnitude.magnitudeOfMasksF64]
  rcases hfast.skeletalSpace_cases hne with ⟨space, hspace, hmag⟩ | ⟨⟨e, hspace⟩, hnone⟩
  · rw [hspace]
    exact hmag
  · rw [hspace, hnone]
    rfl

/-- The probed magnitude is the fresh one, and there is none where there is no fresh one. -/
theorem FastMagnitude.Exact.probeFreshFactorization_eq (hfast : fast.Exact)
    (agents : List CapabilityAgent) (hne : relevantMasks agents required ≠ []) :
    (do (← fast.probeFreshFactorization agents required).2.toOption) =
      (magnitudeOfMasks cg (relevantMasks agents required) required).toOption := by
  rw [FastMagnitude.probeFreshFactorization]
  dsimp only
  rw [if_neg fun hempty ↦ hne (List.isEmpty_iff.mp hempty)]
  rcases hfast.skeletalSpace_cases hne with ⟨space, hspace, hmag⟩ | ⟨⟨e, hspace⟩, hnone⟩
  · rw [hspace, ← hmag, ← hfast.factored space]
    rfl
  · rw [hspace, hnone]
    rfl

variable (route : FreshRoute)

theorem FreshRoute.magnitude_eq (hfast : fast.Exact) (hne : masks ≠ []) :
    (route.magnitude fast masks required).toOption =
      (magnitudeOfMasks cg masks required).toOption := by
  rw [FreshRoute.magnitude]
  split
  · exact hfast.magnitudeOfMasksF64_eq hne
  · rfl

theorem FreshRoute.magnitudeOrZero_eq (hfast : fast.Exact) :
    (route.magnitudeOrZero fast masks required).toOption =
      (Decision.magnitudeOrZero cg masks required).toOption := by
  rw [FreshRoute.magnitudeOrZero, Decision.magnitudeOrZero]
  split
  · rfl
  · next hempty => exact route.magnitude_eq hfast fun hnil ↦ hempty (List.isEmpty_iff.mpr hnil)

end Magnitudes

/-! ## Answers with certificates -/

/-- What is known where these are the fresh magnitudes with and without the candidate. -/
structure CertifiedEval.Tells {fast : FastMagnitude cg} (eval : CertifiedEval fast)
    (magWith magWithout : Option K) : Prop where
  base_eq : magWithout = some eval.base
  tracks : Tracks magWith eval.magWith.toOption
  certified : eval.zeroProof.isSome → magWith = some eval.base

section Answers

variable [IsStrictOrderedRing K] {fast : FastMagnitude cg} {required candidateCaps : UInt32}
variable {memberMasks : List UInt32} {guard : Option (EvaluatorCache cg)}

/-- A certificate is about the masks that the evaluator was built for. -/
theorem certified_of_report (hcg : cg.Exact) (hfast : fast.Exact) (hne : memberMasks ≠ [])
    {c : EvaluatorCache cg} (hc : c.Stands required memberMasks) {pos : Nat}
    (hpos : c.candidateMasks[pos]? = some candidateCaps) {value : K}
    {proof : fast.ZeroDiversityProof}
    (h : (fast.valueWithReportScratch c.evaluator (memberMasks.length + pos) c.scratch).1 =
      .ok (value, some proof)) :
    (magnitudeOfMasks cg (memberMasks ++ [candidateCaps]) required).toOption =
      some (cg.baseValue c.evaluator) := by
  obtain ⟨hlt, -⟩ := List.getElem?_eq_some_iff.mp hpos
  have hbuilt := hc.built
  rw [hc.required_eq, hc.memberMasks_eq] at hbuilt
  have hrange := range_length_ne_nil hne
  have hvalid : Valid (List.range (memberMasks.length + c.candidateMasks.length))
      (memberCouplings memberMasks required ++
        candidateCouplings memberMasks c.candidateMasks required : List (Coupling K))
      (List.range memberMasks.length) :=
    valid_evaluator List.nodup_range
      (fun i hi ↦ Nat.lt_add_right _ (List.mem_range.mp hi)) hrange
  have hsame := hfast.certified _ _ _ _ _ _ _ _ hvalid hbuilt
    (List.mem_range.mpr (Nat.add_lt_add_left hlt _))
    (fun hmem ↦ absurd (List.mem_range.mp hmem) (Nat.not_lt.mpr (Nat.le_add_right _ _))) h
  rw [← value_of_candidate hcg hne hpos, hsame, ← hcg.new_base _ _ _ hvalid]
  change ((buildEvaluator cg required memberMasks c.candidateMasks).map cg.baseValue).toOption = _
  rw [hbuilt]
  rfl

theorem cachedBaseAndWithReport_settles (hcg : cg.Exact) (hfast : fast.Exact)
    (hne : memberMasks ≠ []) (h : Sound guard) :
    Settles (cachedBaseAndWithReport fast required memberMasks candidateCaps).run guard
      fun r guard' ↦ Sound guard' ∧
        ((∃ eval, r = .ok eval ∧
          eval.Tells (magnitudeOfMasks cg (memberMasks ++ [candidateCaps]) required).toOption
            (magnitudeOfMasks cg memberMasks required).toOption) ∨
        (∃ e, r = .error e) ∧ (magnitudeOfMasks cg memberMasks required).toOption = none) := by
  refine Settles.andThen (ensureCachedCandidate_settles hcg hne h candidateCaps) ?_ ?_
  · rintro pos _ (⟨_, c, ⟨⟩, rfl, hc, hpos⟩ | ⟨⟨e, ⟨⟩⟩, -⟩)
    refine Settles.andThen populated_settles ?_ (by rintro _ _ ⟨⟨⟩, -⟩)
    rintro _ _ ⟨⟨⟩, rfl⟩
    obtain rfl := hc.required_eq
    obtain rfl := hc.memberMasks_eq
    have htracks := valueWith_buildEvaluator hcg hne hc.built hpos c.scratch
    rw [← hfast.report_value] at htracks
    refine Settles.andThen (set_settles _) ?_ (by rintro _ _ ⟨⟨⟩, -⟩)
    rintro _ _ ⟨-, rfl⟩
    have hsound : ∀ scratch, Sound (some { c with scratch }) := by
      rintro scratch c' ⟨⟩
      exact ⟨hc.nodup, hc.le_cap, hc.built⟩
    cases hreport :
        (fast.valueWithReportScratch c.evaluator (c.memberMasks.length + pos) c.scratch).1 with
    | error e =>
        rw [hreport] at htracks
        refine .ok ⟨hsound _, .inl ⟨_, rfl, hc.toOption_eq hcg hne, htracks, fun hproof ↦ ?_⟩⟩
        cases hproof
    | ok report =>
        obtain ⟨value, zeroProof⟩ := report
        rw [hreport] at htracks
        refine .ok ⟨hsound _, .inl ⟨_, rfl, hc.toOption_eq hcg hne, htracks, fun hproof ↦ ?_⟩⟩
        obtain ⟨proof, rfl⟩ := Option.isSome_iff_exists.mp hproof
        exact certified_of_report hcg hfast hne hc hpos hreport
  · rintro e _ (⟨_, _, ⟨⟩, -⟩ | ⟨-, rfl, hnone⟩)
    exact ⟨sound_none, .inr ⟨⟨e, rfl⟩, hnone⟩⟩

/-- Either query tells the magnitudes. -/
theorem FreshRoute.cachedCandidateEval_settles (route : FreshRoute) (hcg : cg.Exact)
    (hfast : fast.Exact) (hne : memberMasks ≠ []) (h : Sound guard) :
    Settles (route.cachedCandidateEval fast required memberMasks candidateCaps).run guard
      fun r guard' ↦ Sound guard' ∧
        ((∃ eval, r = .ok eval ∧
          eval.Tells (magnitudeOfMasks cg (memberMasks ++ [candidateCaps]) required).toOption
            (magnitudeOfMasks cg memberMasks required).toOption) ∨
        (∃ e, r = .error e) ∧ (magnitudeOfMasks cg memberMasks required).toOption = none) := by
  rw [FreshRoute.cachedCandidateEval]
  split
  · exact cachedBaseAndWithReport_settles hcg hfast hne h
  · refine Settles.andThen (cachedBaseAndWith_settles hcg hne h candidateCaps) ?_ ?_
    · rintro _ guard' ⟨hsound, ⟨eval, ⟨⟩, hbase, hwith⟩ | ⟨⟨e, ⟨⟩⟩, -⟩⟩
      exact .ok ⟨hsound, .inl ⟨_, rfl, hbase, hwith, fun hproof ↦ by cases hproof⟩⟩
    · rintro e guard' ⟨hsound, ⟨eval, ⟨⟩, -⟩ | ⟨-, hnone⟩⟩
      exact ⟨hsound, .inr ⟨⟨e, rfl⟩, hnone⟩⟩

end Answers

/-! ## Decisions -/

/-- Answers are for magnitudes, not for errors. -/
theorem Answers.congr {magWith magWith' magWithout x y : Except cg.CatgraphError K} {threshold : K}
    (h : Answers threshold magWith magWithout x y) (heq : magWith.toOption = magWith'.toOption) :
    Answers threshold magWith' magWithout x y where
  without_eq := h.without_eq
  with_cases := by
    rcases h.with_cases with hsame | ⟨base, m, w, hy, rfl, hx, hnear⟩
    · exact .inl (hsame.trans heq)
    · cases magWith' with
      | error e => cases heq
      | ok m' =>
          cases heq
          exact .inr ⟨base, m, w, hy, rfl, hx, hnear⟩

section Dispatch

variable [IsStrictOrderedRing K] {fast : FastMagnitude cg} {required : UInt32}
variable {masksWith masksWithout masksIn masksOut : List UInt32} {candidateCaps leaverCaps : UInt32}
variable {guard : Option (EvaluatorCache cg)}

/-- With a certificate and without one, this is an answer for the fresh magnitudes. -/
theorem CertifiedEval.Tells.answers {eval : CertifiedEval fast}
    {fresh magWith magWithout : Except cg.CatgraphError K}
    (h : eval.Tells magWith.toOption magWithout.toOption)
    (hfresh : fresh.toOption = magWith.toOption) (threshold : K) :
    Answers threshold magWith magWithout (FreshRoute.magWith fresh eval threshold)
      (.ok eval.base) := by
  have hplain : Answers threshold magWith magWithout
      (offKnifeEdge fresh eval.magWith eval.base threshold) (.ok eval.base) :=
    (answers_offKnifeEdge (hfresh ▸ h.tracks) h.base_eq).congr hfresh
  obtain ⟨base, answer, zeroProof⟩ := eval
  cases answer with
  | error e => exact hplain
  | ok w =>
      cases zeroProof with
      | none => exact hplain
      | some proof => exact ⟨h.base_eq.symm, .inl (h.certified rfl).symm⟩

variable (route : FreshRoute)

theorem FreshRoute.joinDispatch_answers (hcg : cg.Exact) (hfast : fast.Exact) (h : Sound guard)
    (joinMargin : K)
    (hmasks : masksWith = masksWithout ∨ masksWith = masksWithout ++ [candidateCaps]) :
    Settles (route.joinDispatch fast required masksWith masksWithout candidateCaps joinMargin) guard
      fun decision guard' ↦ Sound guard' ∧
        ∃ x y, Answers joinMargin (Decision.magnitudeOrZero cg masksWith required)
          (Decision.magnitudeOrZero cg masksWithout required) x y ∧
            decision = joinDecisionFromValues x y joinMargin := by
  rw [FreshRoute.joinDispatch]
  split
  · exact .pure ⟨h, _, _, ⟨route.magnitudeOrZero_eq hfast, .inl (route.magnitudeOrZero_eq hfast)⟩,
      rfl⟩
  · next hempty =>
      have hne : masksWithout ≠ [] := fun hnil ↦ hempty (List.isEmpty_iff.mpr hnil)
      rcases hmasks with rfl | rfl
      · rw [if_pos rfl, magnitudeOrZero_of_ne_nil hne]
        refine (cachedBase_settles hcg hne h).bind ?_
        rintro r guard' ⟨hsound, hr⟩
        cases r with
        | ok base => exact .pure ⟨hsound, _, _, ⟨hr, .inl hr⟩, rfl⟩
        | error e =>
            exact .pure ⟨hsound, _, _, .refl _ _ _, (joinDecisionFromValues_of_none hr.symm).symm⟩
      · have hne' : masksWithout ++ [candidateCaps] ≠ [] := List.append_ne_nil_of_left_ne_nil hne _
        rw [if_neg (by simp), magnitudeOrZero_of_ne_nil hne, magnitudeOrZero_of_ne_nil hne']
        refine (route.cachedCandidateEval_settles hcg hfast hne h).bind ?_
        rintro r guard' ⟨hsound, ⟨eval, rfl, htells⟩ | ⟨⟨e, rfl⟩, hnone⟩⟩
        · exact .pure ⟨hsound, _, _, htells.answers (route.magnitude_eq hfast hne') _, rfl⟩
        · exact .pure ⟨hsound, _, _, .refl _ _ _, (joinDecisionFromValues_of_none hnone).symm⟩

theorem FreshRoute.leaveDispatchEvaluator_answers (hcg : cg.Exact) (hfast : fast.Exact)
    (h : Sound guard)
    (hmasks : masksIn = masksOut ∨
      ∃ front back, masksIn = front ++ leaverCaps :: back ∧ masksOut = front ++ back) :
    Settles (route.leaveDispatchEvaluator fast required masksIn masksOut leaverCaps) guard
      fun decision guard' ↦ Sound guard' ∧
        ∃ x y, Answers 0 (Decision.magnitudeOrZero cg masksIn required)
          (Decision.magnitudeOrZero cg masksOut required) x y ∧
            decision = leaveDecisionFromValues x y := by
  rw [FreshRoute.leaveDispatchEvaluator]
  split
  · exact .pure ⟨h, _, _, ⟨route.magnitudeOrZero_eq hfast, .inl (route.magnitudeOrZero_eq hfast)⟩,
      rfl⟩
  · next hempty =>
      have hne : masksOut ≠ [] := fun hnil ↦ hempty (List.isEmpty_iff.mpr hnil)
      rcases hmasks with rfl | ⟨front, back, rfl, rfl⟩
      · rw [if_pos rfl, magnitudeOrZero_of_ne_nil hne]
        refine (cachedBase_settles hcg hne h).bind ?_
        rintro r guard' ⟨hsound, hr⟩
        cases r with
        | ok base => exact .pure ⟨hsound, _, _, ⟨hr, .inl hr⟩, rfl⟩
        | error e =>
            exact .pure ⟨hsound, _, _, .refl _ _ _, (leaveDecisionFromValues_of_none hr.symm).symm⟩
      · have hne' : front ++ leaverCaps :: back ≠ [] :=
          List.append_ne_nil_of_right_ne_nil _ (List.cons_ne_nil _ _)
        rw [if_neg (by simp), magnitudeOrZero_of_ne_nil hne, magnitudeOrZero_of_ne_nil hne']
        refine (route.cachedCandidateEval_settles hcg hfast hne h).bind ?_
        rintro r guard' ⟨hsound, ⟨eval, rfl, htells⟩ | ⟨⟨e, rfl⟩, hnone⟩⟩
        · rw [← magnitudeOfMasks_move hcg] at htells
          exact .pure ⟨hsound, _, _, htells.answers (route.magnitude_eq hfast hne') _, rfl⟩
        · exact .pure ⟨hsound, _, _, .refl _ _ _, (leaveDecisionFromValues_of_none hnone).symm⟩

end Dispatch

/-! ## Policies that share a cache -/

/-- A call of a policy without roles that may have the levers on. -/
structure LeverCall (cg : CatgraphMagnitude K) where
  call : Call cg
  route : FreshRoute

/-- Ask the policy. -/
def LeverCall.answer (fast : FastMagnitude cg) (c : LeverCall cg) : Locked cg (Decision K) :=
  match c.call with
  | .join policy agent coalition ctx =>
      (LeverPolicy.mk policy c.route).shouldJoin fast agent coalition ctx
  | .leave policy agent coalition ctx =>
      (LeverPolicy.mk policy c.route).shouldLeave fast agent coalition ctx

section Calls

variable [IsStrictOrderedRing K] {fast : FastMagnitude cg} {guard : Option (EvaluatorCache cg)}

theorem LeverCall.answer_settles (hcg : cg.Exact) (hfast : fast.Exact) (c : LeverCall cg)
    (huntyped : c.call.Untyped) (hown : c.call.OwnMask) (h : Sound guard) :
    Settles (c.answer fast) guard fun decision guard' ↦ Sound guard' ∧
      Freezes c.call.threshold (answerError c.call.magWith) c.call.fresh decision := by
  obtain ⟨call, route⟩ := c
  cases call with
  | join policy agent coalition ctx =>
      change Settles ((LeverPolicy.mk policy route).shouldJoin fast agent coalition ctx) guard _
      rw [LeverPolicy.shouldJoin, show policy.typed = none from huntyped]
      refine (route.joinDispatch_answers hcg hfast h policy.joinMargin joinMasks_cases).imp ?_
      rintro _ guard' ⟨hsound, x, y, hanswers, rfl⟩
      exact ⟨hsound, hanswers.freezes_join⟩
  | leave policy agent coalition ctx =>
      change Settles ((LeverPolicy.mk policy route).shouldLeave fast agent coalition ctx) guard _
      rw [LeverPolicy.shouldLeave, show policy.typed = none from huntyped]
      cases hvariant : policy.leaveVariant with
      | fresh =>
          refine .pure ⟨h, ?_⟩
          rw [leaveDecisionFromValues_congr (route.magnitudeOrZero_eq hfast)
            (route.magnitudeOrZero_eq hfast)]
          exact .refl (answerError_nonneg _) _
      | evaluator =>
          refine (route.leaveDispatchEvaluator_answers hcg hfast h (leaveMasks_cases hown)).imp ?_
          rintro _ guard' ⟨hsound, x, y, hanswers, rfl⟩
          exact ⟨hsound, hanswers.freezes_leave⟩

end Calls

/-! ## A sample -/

end Koalisi.Decision
