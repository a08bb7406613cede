import Koalisi.Harness.Prune

/-!
# The prune that keeps the best record

The identity prune lets a member leave if the prune would, and if for each demanded step that
the member covers another one covers it whose record is at least as good.  So a sweep keeps the
best record of each step; and among members whose records are equally good it is a sweep of the
prune.

Records are compared by cross-multiplication, in 128 bits.  They do not suffice for the largest
records, and the comparison panics on those; on all others the prune does what it says
(`identity_prune_keeps_best_iff`).
-/

namespace Koalisi.Harness

open Koalisi.Lib Koalisi.Lib.Fallible
open Koalisi.Topology (U64 Decision DecisionContext)

variable {σ F α : Type}

/-! ## Records -/

/-- What a record is worth. -/
def recordValue (record : UInt64 × UInt64) : ℚ :=
  ((record.1.toNat : ℚ) + 1) / ((record.2.toNat : ℚ) + 2)

/-- A product of the comparison does not fit. -/
def Overflows (a b : UInt64 × UInt64) : Prop :=
  a.1.toNat = 2 ^ 64 - 1 ∧ 2 ^ 64 - 2 ≤ b.2.toNat

theorem checkedMul_of_overflows {a b : UInt64 × UInt64} (h : Overflows a b) :
    checkedMul (a.1.toNat + 1) (b.2.toNat + 2) = none := by
  refine if_neg (Nat.not_lt.mpr ?_)
  have hfactors : 2 ^ 64 ≤ a.1.toNat + 1 ∧ 2 ^ 64 ≤ b.2.toNat + 2 := by
    have := h.1
    have := h.2
    omega
  calc 2 ^ 128 = 2 ^ 64 * 2 ^ 64 := by decide
    _ ≤ _ := Nat.mul_le_mul hfactors.1 hfactors.2

theorem checkedMul_of_not_overflows {a b : UInt64 × UInt64} (h : ¬Overflows a b) :
    checkedMul (a.1.toNat + 1) (b.2.toNat + 2) =
      some ((a.1.toNat + 1) * (b.2.toNat + 2)) := by
  refine if_pos ?_
  have hp := a.1.toNat_lt
  have hn := b.2.toNat_lt
  by_cases hmax : a.1.toNat = 2 ^ 64 - 1
  · have hsmall : b.2.toNat + 2 ≤ 2 ^ 64 - 1 := by
      have hlt : ¬2 ^ 64 - 2 ≤ b.2.toNat := fun hle ↦ h ⟨hmax, hle⟩
      omega
    calc (a.1.toNat + 1) * (b.2.toNat + 2) ≤ 2 ^ 64 * (2 ^ 64 - 1) :=
          Nat.mul_le_mul hp hsmall
      _ < 2 ^ 128 := by decide
  · calc (a.1.toNat + 1) * (b.2.toNat + 2) ≤ (2 ^ 64 - 1) * (2 ^ 64 + 1) :=
          Nat.mul_le_mul (by omega) (by omega)
      _ < 2 ^ 128 := by decide

theorem recordValue_le_iff {a b : UInt64 × UInt64} : recordValue a ≤ recordValue b ↔
    (a.1.toNat + 1) * (b.2.toNat + 2) ≤ (b.1.toNat + 1) * (a.2.toNat + 2) := by
  have ha : (0 : ℚ) < (a.2.toNat : ℚ) + 2 := by positivity
  have hb : (0 : ℚ) < (b.2.toNat : ℚ) + 2 := by positivity
  rw [recordValue, recordValue, div_le_div_iff₀ ha hb]
  exact_mod_cast Iff.rfl

namespace RefPruneId

/-- What fits is compared exactly. -/
theorem atLeast_eq_some {a b : UInt64 × UInt64} (hab : ¬Overflows a b) (hba : ¬Overflows b a) :
    atLeast a b = some (decide (recordValue b ≤ recordValue a)) := by
  rw [atLeast, checkedMul_of_not_overflows hab, checkedMul_of_not_overflows hba]
  exact congrArg some (decide_eq_decide.mpr recordValue_le_iff.symm)

theorem atLeast_eq_none {a b : UInt64 × UInt64} (h : Overflows b a) : atLeast a b = none := by
  rw [atLeast, checkedMul_of_overflows h]
  cases checkedMul (a.1.toNat + 1) (b.2.toNat + 2) <;> rfl

/-- No record is found to be at least as good as the largest one. -/
theorem atLeast_ne_true {a b : UInt64 × UInt64} (ha : a.1 ≤ a.2) (hb : b.1 ≤ b.2)
    (hmax : b.1.toNat = 2 ^ 64 - 1) : atLeast a b ≠ some true := by
  intro h
  have hab : ¬Overflows b a := fun hover ↦ by
    rw [atLeast_eq_none hover] at h
    cases h
  have hn : b.2.toNat = 2 ^ 64 - 1 := by
    have hle := UInt64.le_iff_toNat_le.mp hb
    have hlt := b.2.toNat_lt
    omega
  have hle := UInt64.le_iff_toNat_le.mp ha
  have hsmall : ¬2 ^ 64 - 2 ≤ a.2.toNat := fun hle ↦ hab ⟨hmax, hle⟩
  by_cases hba : Overflows a b
  · have hlarge := hba.1
    omega
  · rw [atLeast_eq_some hba hab, Option.some.injEq, decide_eq_true_eq, recordValue_le_iff, hmax,
      hn] at h
    omega

end RefPruneId

/-! ## Leaving by records -/

theorem anyM_eq_some {p : α → Option Bool} {q : α → Bool} {l : List α}
    (h : ∀ a ∈ l, p a = some (q a)) : l.anyM p = some (l.any q) := by
  obtain ⟨b, hb⟩ := exists_anyM fun a ha ↦ ⟨q a, h a ha⟩
  rw [hb, any_of_anyM (fun a ha c hc ↦ Option.some.inj ((h a ha).symm.trans hc)) hb]

theorem allM_eq_some {p : α → Option Bool} {q : α → Bool} {l : List α}
    (h : ∀ a ∈ l, p a = some (q a)) : l.allM p = some (l.all q) := by
  induction l with
  | nil => rfl
  | cons a l ih =>
      rw [List.allM, h a List.mem_cons_self, List.all_cons]
      cases q a with
      | true => exact ih fun a' ha ↦ h a' (List.mem_cons_of_mem a ha)
      | false => rfl

/-- A search that gets stuck somewhere, and ends nowhere. -/
theorem anyM_eq_none {p : α → Option Bool} {l : List α} (hstuck : ∃ a ∈ l, p a = none)
    (hend : ∀ a ∈ l, p a ≠ some true) : l.anyM p = none := by
  induction l with
  | nil =>
      obtain ⟨a, ha, -⟩ := hstuck
      cases ha
  | cons a l ih =>
      rw [List.anyM]
      cases ha : p a with
      | none => rfl
      | some c =>
          cases c with
          | true => exact absurd ha (hend a List.mem_cons_self)
          | false =>
              refine ih ?_ fun a' ha' ↦ hend a' (List.mem_cons_of_mem a ha')
              obtain ⟨b, hb, hstuck⟩ := hstuck
              refine ⟨b, (List.mem_cons.mp hb).resolve_left fun hba ↦ ?_, hstuck⟩
              rw [hba, ha] at hstuck
              cases hstuck

section Leaves

variable {roles : Nat → Option Role} {table : Nat → Option (UInt64 × UInt64)}
  {steps : List (UInt8 × UInt8)} {agent : CapabilityAgent} {coalition : List CapabilityAgent}

/-- The record of an agent in a table. -/
def recordOf (table : Nat → Option (UInt64 × UInt64)) (id : Nat) : UInt64 × UInt64 :=
  (table id).getD (0, 0)

/-- Nobody has performed more often than it was counted. -/
def Counted (table : Nat → Option (UInt64 × UInt64)) : Prop :=
  ∀ id, (recordOf table id).1 ≤ (recordOf table id).2

/-- The records of agents that cover one step can be compared. -/
def Comparable (roles : Nat → Option Role) (table : Nat → Option (UInt64 × UInt64))
    (coalition : List CapabilityAgent) : Prop :=
  ∀ a ∈ coalition, ∀ b ∈ coalition, a.id ≠ b.id → ∀ step,
    RefPruneId.covers roles a.id a.capabilities step = true →
    RefPruneId.covers roles b.id b.capabilities step = true →
      ¬Overflows (recordOf table a.id) (recordOf table b.id)

/-- Who is redundant is covered for by somebody else. -/
theorem RefPrune.redundant_iff {id : Nat} : RefPrune.redundant roles steps coalition id = true ↔
    ∀ step ∈ steps, (∃ m ∈ coalition, RefPruneId.covers roles m.id m.capabilities step = true) →
      ∃ m ∈ coalition, m.id ≠ id ∧ RefPruneId.covers roles m.id m.capabilities step = true := by
  simp only [RefPrune.redundant, RefPrune.covered_eq_any, List.all_eq_true, Bool.or_eq_true,
    Bool.not_eq_true', List.any_eq_false, List.any_eq_true, Bool.and_eq_true, decide_eq_true_eq,
    ne_eq, Option.some.injEq, reduceCtorEq, not_false_eq_true, true_and]
  refine forall₂_congr fun step _ ↦ ⟨fun h hcovered ↦ ?_, fun h ↦ ?_⟩
  · obtain ⟨m, hm, hcovers⟩ := hcovered
    exact h.resolve_left fun hnone ↦ hnone m hm hcovers
  · by_cases hcovered : ∃ m ∈ coalition, RefPruneId.covers roles m.id m.capabilities step = true
    · exact Or.inr (h hcovered)
    · exact Or.inl fun m hm hcovers ↦ hcovered ⟨m, hm, hcovers⟩

namespace RefPruneId

/-- Somebody else covers the step with a record at least as good. -/
def outrankedAt (roles : Nat → Option Role) (table : Nat → Option (UInt64 × UInt64))
    (coalition : List CapabilityAgent) (agent : CapabilityAgent) (step : UInt8 × UInt8) : Bool :=
  coalition.any fun m ↦ m.id ≠ agent.id && covers roles m.id m.capabilities step &&
    decide (recordValue (recordOf table agent.id) ≤ recordValue (recordOf table m.id))

/-- What the identity prune answers, where it can compare. -/
def prunes (roles : Nat → Option Role) (steps : List (UInt8 × UInt8))
    (table : Nat → Option (UInt64 × UInt64)) (coalition : List CapabilityAgent)
    (agent : CapabilityAgent) : Bool :=
  RefPrune.redundant roles steps coalition agent.id &&
    (steps.filter (covers roles agent.id agent.capabilities)).all
      (outrankedAt roles table coalition agent)

/-- What has been shown changes neither the steps nor the records. -/
theorem foldl_showAgent (state : PruneIdState) (coalition : List CapabilityAgent) :
    (coalition.foldl showAgent state).steps = state.steps ∧
      (coalition.foldl showAgent state).records = state.records := by
  induction coalition generalizing state with
  | nil => exact ⟨rfl, rfl⟩
  | cons m coalition ih => exact ih (showAgent state m)

theorem outranked_eq_some (hcomparable : Comparable roles table coalition)
    (hagent : agent ∈ coalition) {state : PruneIdState} (hsteps : state.steps = steps)
    (hrecords : state.records = table) :
    outranked roles state coalition agent =
      some ((steps.filter (covers roles agent.id agent.capabilities)).all
        (outrankedAt roles table coalition agent)) := by
  subst hsteps hrecords
  refine allM_eq_some fun step hstep ↦ anyM_eq_some fun m hm ↦ ?_
  have hcovers := (List.mem_filter.mp hstep).2
  by_cases hid : m.id = agent.id
  · rw [hid, if_neg (by simp)]
    simp
  · cases hother : covers roles m.id m.capabilities step with
    | false => simp
    | true =>
        rw [decide_eq_true hid, Bool.true_and, if_pos rfl, Bool.true_and]
        exact atLeast_eq_some (hcomparable m hm agent hagent hid step hother hcovers)
          (hcomparable agent hagent m hm (Ne.symm hid) step hcovers hother)

variable [Zero F] {ctx : DecisionContext}

/-- A leave is the prune's, and then the records decide. -/
theorem run_shouldLeave (roles : Nat → Option Role) (agent : CapabilityAgent)
    (coalition : List CapabilityAgent) (ctx : DecisionContext) (s : PruneIdState) :
    let t := coalition.foldl showAgent (showAgent s agent)
    ((policy roles : Policy _ F).shouldLeave agent coalition ctx).run s =
      (outranked roles t coalition agent).map fun outranked ↦
        (⟨RefPrune.redundant roles t.steps coalition agent.id && outranked, 0⟩, t) := by
  intro t
  have hredundant : RefPrune.redundant roles t.steps coalition agent.id =
      t.steps.all fun step ↦
        !(coalition.any fun m ↦ some m.id ≠ none && covers roles m.id m.capabilities step) ||
          coalition.any fun m ↦ some m.id ≠ some agent.id &&
            covers roles m.id m.capabilities step := by
    simp only [RefPrune.redundant, RefPrune.covered_eq_any]
  rw [hredundant]
  have hrun : ((policy roles : Policy _ F).shouldLeave agent coalition ctx).run s =
      (outranked roles t coalition agent >>= fun outranked ↦ some (outranked, t)) >>= fun r ↦
        some (⟨(t.steps.all fun step ↦
          !(coalition.any fun m ↦ some m.id ≠ none && covers roles m.id m.capabilities step) ||
            coalition.any fun m ↦ some m.id ≠ some agent.id &&
              covers roles m.id m.capabilities step) && r.1, 0⟩, r.2) := rfl
  rw [hrun]
  cases outranked roles t coalition agent with
  | none => rfl
  | some outranked => rfl

theorem settles_shouldLeave (hcomparable : Comparable roles table coalition)
    (hagent : agent ∈ coalition) {s : PruneIdState} (hs : s.steps = steps ∧ s.records = table) :
    Settles ((policy roles : Policy _ F).shouldLeave agent coalition ctx) s fun decision t ↦
      decision.act = prunes roles steps table coalition agent ∧ t.steps = steps ∧
        t.records = table := by
  obtain ⟨hsteps, hrecords⟩ := foldl_showAgent (showAgent s agent) coalition
  have hsteps' := hsteps.trans hs.1
  have hrecords' := hrecords.trans hs.2
  refine ⟨⟨prunes roles steps table coalition agent, 0⟩, _, ?_, rfl, hsteps', hrecords'⟩
  rw [run_shouldLeave, outranked_eq_some hcomparable hagent hsteps' hrecords', Option.map_some,
    hsteps']
  rfl

/-- Among records that are equally good, the prune decides. -/
theorem prunes_eq_redundant (hagent : agent ∈ coalition)
    (hequal : ∀ m ∈ coalition,
      recordValue (recordOf table m.id) = recordValue (recordOf table agent.id)) :
    prunes roles steps table coalition agent =
      RefPrune.redundant roles steps coalition agent.id := by
  unfold prunes
  cases hredundant : RefPrune.redundant roles steps coalition agent.id with
  | false => rfl
  | true =>
      rw [Bool.true_and, List.all_eq_true]
      intro step hstep
      obtain ⟨hstep, hcovers⟩ := List.mem_filter.mp hstep
      obtain ⟨m, hm, hid, hcovers'⟩ :=
        RefPrune.redundant_iff.mp hredundant step hstep ⟨agent, hagent, hcovers⟩
      refine List.any_eq_true.mpr ⟨m, hm, ?_⟩
      rw [decide_eq_true hid, hcovers', decide_eq_true (hequal m hm).ge]
      rfl

/-- Who has the largest record cannot be compared with another one who has counted as often. -/
theorem outranked_eq_none {other : CapabilityAgent} {step : UInt8 × UInt8}
    (hother : other ∈ coalition) (hid : other.id ≠ agent.id)
    (hcovers : covers roles agent.id agent.capabilities step = true)
    (hcovers' : covers roles other.id other.capabilities step = true)
    (hrecords : Counted table)
    (hover : Overflows (recordOf table agent.id) (recordOf table other.id)) {state : PruneIdState}
    (hsteps : state.steps = [step]) (htable : state.records = table) :
    outranked roles state coalition agent = none := by
  subst htable
  have hany : (coalition.anyM fun m ↦
      if m.id ≠ agent.id && covers roles m.id m.capabilities step then
        atLeast (state.record m.id) (state.record agent.id)
      else some false) = none := by
    refine anyM_eq_none ⟨other, hother, ?_⟩ fun m _ ↦ ?_
    · rw [decide_eq_true hid, hcovers']
      exact atLeast_eq_none hover
    · split
      · exact atLeast_ne_true (hrecords m.id) (hrecords agent.id) hover.1
      · simp
  rw [outranked, hsteps, List.filter_cons_of_pos hcovers, List.filter_nil, List.allM, hany]
  rfl

end RefPruneId

end Leaves

/-! ## Counting -/

section Count

variable {roles : Nat → Option Role} {state state' : PruneIdState}

theorem toNat_checkedAdd {a b c : UInt64} (h : checkedAdd a b = some c) :
    c.toNat = a.toNat + b.toNat := by
  unfold checkedAdd at h
  split at h
  · next hlt =>
      cases h
      rw [UInt64.toNat_add, Nat.mod_eq_of_lt hlt]
  · cases h

theorem checkedAdd_of_lt {a b : UInt64} (h : a.toNat + b.toNat < 2 ^ 64) :
    checkedAdd a b = some (a + b) := if_pos h

/-- The state in which an agent has a new record. -/
def PruneIdState.withRecord (state : PruneIdState) (id : Nat) (record : UInt64 × UInt64) :
    PruneIdState :=
  { state with records := fun other ↦ if other = id then some record else state.records other }

theorem PruneIdState.record_withRecord (state : PruneIdState) (id : Nat) (r : UInt64 × UInt64)
    (other : Nat) :
    (state.withRecord id r).record other = if other = id then r else state.record other := by
  unfold PruneIdState.record PruneIdState.withRecord
  dsimp only
  split
  · rfl
  · rfl

namespace RefPruneId

/-- Nothing is counted, or one more for the member. -/
theorem eq_of_countOutcome {member : MemberOutcome}
    (h : countOutcome roles state member = some state') :
    state' = state ∨ ∃ p n, checkedAdd (state.record member.agentId).2 1 = some n ∧
      checkedAdd (state.record member.agentId).1 (if member.performed then 1 else 0) = some p ∧
      state' = state.withRecord member.agentId (p, n) := by
  unfold countOutcome at h
  dsimp only at h
  split at h
  · split at h
    · exact Or.inl (Option.some.inj h).symm
    · obtain ⟨n, hn, h⟩ := Option.bind_eq_some_iff.mp h
      obtain ⟨p, hp, h⟩ := Option.bind_eq_some_iff.mp h
      exact Or.inr ⟨p, n, hn, hp, (Option.some.inj h).symm⟩
  · exact Or.inl (Option.some.inj h).symm

/-- Nobody is counted as performing without being counted. -/
theorem counted_of_countOutcome {member : MemberOutcome} (hcounted : Counted state.records)
    (h : countOutcome roles state member = some state') : Counted state'.records := by
  rcases eq_of_countOutcome h with rfl | ⟨p, n, hn, hp, rfl⟩
  · exact hcounted
  · intro id
    change ((state.withRecord member.agentId (p, n)).record id).1 ≤
      ((state.withRecord member.agentId (p, n)).record id).2
    rw [PruneIdState.record_withRecord]
    split
    · have hold := UInt64.le_iff_toNat_le.mp (hcounted member.agentId)
      have hstep : (if member.performed then 1 else 0 : UInt64).toNat ≤ (1 : UInt64).toNat := by
        cases member.performed <;> decide
      rw [UInt64.le_iff_toNat_le, toNat_checkedAdd hn, toNat_checkedAdd hp]
      exact Nat.add_le_add hold hstep
    · exact hcounted id

/-- The member is counted: it is known and has something that the steps of its role ask for. -/
structure Counts (roles : Nat → Option Role) (state : PruneIdState) (id : Nat) : Prop where
  meets : ∃ role caps, roles id = some role ∧ state.shownCaps id = some caps ∧
    ((state.steps.filter (·.2 = role)).filterMap (checkedShl ·.1)).foldl (· ||| ·) 0 &&& caps ≠ 0

theorem Counts.withRecord {id other : Nat} {r : UInt64 × UInt64} (h : Counts roles state id) :
    Counts roles (state.withRecord other r) id := ⟨h.meets⟩

theorem Counts.countOutcome_eq (member : MemberOutcome) (h : Counts roles state member.agentId) :
    countOutcome roles state member = (do
      let n ← checkedAdd (state.record member.agentId).2 1
      let p ← checkedAdd (state.record member.agentId).1 (if member.performed then 1 else 0)
      return state.withRecord member.agentId (p, n)) := by
  obtain ⟨role, caps, hrole, hcaps, hmeets⟩ := h.meets
  unfold countOutcome
  simp only [hrole, hcaps]
  exact if_neg hmeets

/-- The state is reached by outcomes that name one agent only. -/
def Reaches (roles : Nat → Option Role) (state : PruneIdState) (id : Nat) (state' : PruneIdState) :
    Prop :=
  (∃ outcomes : List MemberOutcome,
      outcomes.foldlM (countOutcome roles) state = some state') ∧
    (∀ other, Counts roles state other → Counts roles state' other) ∧
      ∀ other, other ≠ id → state'.record other = state.record other

theorem Reaches.trans {id : Nat} {mid : PruneIdState} (h : Reaches roles state id mid)
    (h' : Reaches roles mid id state') : Reaches roles state id state' := by
  obtain ⟨⟨outcomes, hrun⟩, hcounts, hothers⟩ := h
  obtain ⟨⟨outcomes', hrun'⟩, hcounts', hothers'⟩ := h'
  refine ⟨⟨outcomes ++ outcomes', ?_⟩, fun other hother ↦ hcounts' other (hcounts other hother),
    fun other hne ↦ (hothers' other hne).trans (hothers other hne)⟩
  rw [List.foldlM_append, hrun]
  exact hrun'

/-- So many outcomes of an agent that is counted. -/
theorem Counts.exists_reaches {id : Nat} (h : Counts roles state id) (performed : Bool) (k : Nat)
    (hle : (state.record id).1.toNat ≤ (state.record id).2.toNat)
    (hfits : (state.record id).2.toNat + k < 2 ^ 64) :
    ∃ state', Reaches roles state id state' ∧
      (state'.record id).1.toNat = (state.record id).1.toNat + (if performed then k else 0) ∧
      (state'.record id).2.toNat = (state.record id).2.toNat + k := by
  induction k generalizing state with
  | zero =>
      refine ⟨state, ⟨⟨[], rfl⟩, fun _ hother ↦ hother, fun _ _ ↦ rfl⟩, ?_, rfl⟩
      cases performed <;> rfl
  | succ k ih =>
      have hone : (1 : UInt64).toNat = 1 := rfl
      have hstep : (if performed then 1 else 0 : UInt64).toNat = if performed then 1 else 0 := by
        cases performed <;> rfl
      have hbound : (if performed then 1 else 0) ≤ 1 := by cases performed <;> decide
      have hn := checkedAdd_of_lt (a := (state.record id).2) (b := 1) (by omega)
      have hp := checkedAdd_of_lt (a := (state.record id).1) (b := if performed then 1 else 0)
        (by omega)
      have hcount := Counts.countOutcome_eq ⟨id, performed⟩ h
      dsimp only at hcount
      rw [hn, hp] at hcount
      have hn' := toNat_checkedAdd hn
      have hp' := toNat_checkedAdd hp
      generalize (state.record id).2 + 1 = n at hcount hn'
      generalize (state.record id).1 + (if performed then 1 else 0) = p at hcount hp'
      have hrecord : (state.withRecord id (p, n)).record id = (p, n) := by
        rw [PruneIdState.record_withRecord, if_pos rfl]
      obtain ⟨state', hreaches, hperformed, hcounted⟩ := @ih (state.withRecord id (p, n))
        h.withRecord (by rw [hrecord]; dsimp only; omega) (by rw [hrecord]; dsimp only; omega)
      rw [hrecord] at hperformed hcounted
      refine ⟨state', Reaches.trans ⟨⟨[⟨id, performed⟩], ?_⟩, fun _ hother ↦ hother.withRecord,
        fun other hne ↦ ?_⟩ hreaches, ?_, ?_⟩
      · rw [List.foldlM_cons, hcount]
        rfl
      · rw [PruneIdState.record_withRecord, if_neg hne]
      · rw [hperformed, hp', hstep]
        cases performed
        · rfl
        · rw [if_pos rfl, if_pos rfl, if_pos rfl]
          omega
      · rw [hcounted, hn']
        omega

theorem Reaches.counted {id : Nat} (hcounted : Counted state.records)
    (h : Reaches roles state id state') : Counted state'.records := by
  obtain ⟨⟨outcomes, hrun⟩, -⟩ := h
  exact foldlM_inv (P := fun s ↦ Counted s.records)
    (fun _ _ _ _ hs hcount ↦ counted_of_countOutcome hs hcount) hcounted hrun

end RefPruneId

end Count

/-! ## Sweeps by records -/

section Sweep

variable {roles : Nat → Option Role} {table : Nat → Option (UInt64 × UInt64)}
  {steps : List (UInt8 × UInt8)} {agents : List CapabilityAgent} {members : List Nat}
  {coalition : List CapabilityAgent} {agent : CapabilityAgent} {i : Nat} {step : UInt8 × UInt8}

/-- The agents in some places of the pool. -/
def shown (agents : List CapabilityAgent) (members : List Nat) : List CapabilityAgent :=
  members.filterMap (agents[·]?)

/-- The agent in this place covers the step. -/
def coversAt (roles : Nat → Option Role) (agents : List CapabilityAgent) (i : Nat)
    (step : UInt8 × UInt8) : Bool :=
  agents[i]?.any fun agent ↦ RefPruneId.covers roles agent.id agent.capabilities step

/-- What the record of the agent in this place is worth. -/
def valueAt (table : Nat → Option (UInt64 × UInt64)) (agents : List CapabilityAgent) (i : Nat) :
    ℚ :=
  agents[i]?.elim 0 fun agent ↦ recordValue (recordOf table agent.id)

theorem mem_shown : agent ∈ shown agents members ↔ ∃ i ∈ members, agents[i]? = some agent :=
  List.mem_filterMap

theorem Viewed.eq_shown (h : Viewed agents members coalition) :
    coalition = shown agents members := by
  induction h with
  | nil => rfl
  | @cons i agent members coalition hagent _ ih =>
      have hcons : shown agents (i :: members) = agent :: shown agents members :=
        List.filterMap_cons_some hagent
      rw [hcons, ih]

theorem coversAt_eq (hagent : agents[i]? = some agent) :
    coversAt roles agents i step = RefPruneId.covers roles agent.id agent.capabilities step := by
  rw [coversAt, hagent, Option.any_some]

theorem valueAt_eq (hagent : agents[i]? = some agent) :
    valueAt table agents i = recordValue (recordOf table agent.id) := by
  rw [valueAt, hagent, Option.elim_some]

/-- An answer about an agent of the coalition, by the place of the agent. -/
def answerAt (agents : List CapabilityAgent)
    (answer : List CapabilityAgent → CapabilityAgent → Bool) (members : List Nat) (i : Nat) :
    Bool :=
  agents[i]?.any (answer (shown agents members))

theorem answerAt_eq {answer : List CapabilityAgent → CapabilityAgent → Bool}
    (hagent : agents[i]? = some agent) :
    answerAt agents answer members i = answer (shown agents members) agent := by
  rw [answerAt, hagent, Option.any_some]

variable [Zero F] {ctx : DecisionContext}

theorem RefPruneId.leavesBy (hcomparable : Comparable roles table (shown agents members))
    (steps : List (UInt8 × UInt8)) :
    LeavesBy (RefPruneId.policy roles : Policy _ F) agents ctx
      (fun s ↦ s.steps = steps ∧ s.records = table) members
      (answerAt agents (prunes roles steps table)) := by
  intro ms hms i hi agent coalition hagent hview s hs
  have hsub : shown agents ms ⊆ shown agents members := (hms.filterMap _).subset
  rw [answerAt_eq hagent]
  rw [hview.eq_shown]
  exact settles_shouldLeave (fun a ha b hb ↦ hcomparable a (hsub ha) b (hsub hb))
    (mem_shown.mpr ⟨i, hi, hagent⟩) hs

theorem RefPrune.leavesBy_redundant (roles : Nat → Option Role) (ctx : DecisionContext)
    (steps : List (UInt8 × UInt8)) (members : List Nat) :
    LeavesBy (RefPrune.policy roles : Policy _ F) agents ctx (· = steps) members
      (answerAt agents fun coalition agent ↦ redundant roles steps coalition agent.id) := by
  rintro ms - i - agent coalition hagent hview s rfl
  rw [answerAt_eq hagent]
  rw [← hview.eq_shown]
  exact ⟨_, _, rfl, rfl, rfl⟩

/-- Who leaves is outranked at each step. -/
theorem exists_outranking (hagent : agents[i]? = some agent)
    (hleaves : RefPruneId.prunes roles steps table (shown agents members) agent = true)
    (hstep : step ∈ steps) (hcovers : coversAt roles agents i step = true) :
    ∃ j ∈ members, j ≠ i ∧ coversAt roles agents j step = true ∧
      valueAt table agents i ≤ valueAt table agents j := by
  rw [coversAt_eq hagent] at hcovers
  have hall := List.all_eq_true.mp (Bool.and_eq_true_iff.mp hleaves).2 step
    (List.mem_filter.mpr ⟨hstep, hcovers⟩)
  obtain ⟨m, hm, hother⟩ := List.any_eq_true.mp hall
  obtain ⟨j, hj, hjm⟩ := mem_shown.mp hm
  simp only [Bool.and_eq_true, decide_eq_true_eq] at hother
  obtain ⟨⟨hid, hcovers'⟩, hle⟩ := hother
  refine ⟨j, hj, ?_, (coversAt_eq hjm).trans hcovers', ?_⟩
  · rintro rfl
    cases hagent.symm.trans hjm
    exact hid rfl
  · rw [valueAt_eq hagent, valueAt_eq hjm]
    exact hle

/-- Every sweep of the coalition comes to an end.  It keeps for each demanded step that it is
covered, and what the best record among those who cover it is worth; and if all records are worth
the same, it is a sweep of the prune. -/
def KeepsBest (F : Type) [Zero F] (roles : Nat → Option Role) (agents : List CapabilityAgent)
    (table : Nat → Option (UInt64 × UInt64)) (members : List Nat) : Prop :=
  ∀ (steps : List (UInt8 × UInt8)) (shownCaps : Nat → Option UInt32) (ctx : DecisionContext)
    (arrival : List Nat) (churn : Nat),
    Ends (leaves (RefPruneId.policy roles : Policy _ F) agents ctx arrival members churn)
      ⟨steps, shownCaps, table⟩ fun acc _ ↦
        (∀ step ∈ steps,
          acc.1.any (coversAt roles agents · step) = members.any (coversAt roles agents · step) ∧
          Sweeps.best (coversAt roles agents) (valueAt table agents) acc.1 step =
            Sweeps.best (coversAt roles agents) (valueAt table agents) members step) ∧
        ((∀ i ∈ members, ∀ j ∈ members, valueAt table agents i = valueAt table agents j) →
          leaves (RefPrune.policy roles : Policy _ F) agents ctx arrival members churn steps =
            .ok acc steps)

theorem keepsBest_of_comparable (hpool : ∀ i ∈ members, i < agents.length)
    (hcomparable : Comparable roles table (shown agents members)) :
    KeepsBest F roles agents table members := by
  intro steps shownCaps ctx arrival churn
  refine (ends_sweep (RefPruneId.leavesBy hcomparable steps) hpool arrival churn
    ⟨rfl, rfl⟩).imp fun acc t hacc ↦ ?_
  obtain ⟨left, churn'⟩ := acc
  obtain ⟨rfl, hchurn, -⟩ := hacc
  constructor
  · intro step hstep
    have hbest : Sweeps.best (coversAt roles agents) (valueAt table agents)
        (Sweeps.sweep (answerAt agents (RefPruneId.prunes roles steps table)) arrival members)
        step =
          Sweeps.best (coversAt roles agents) (valueAt table agents) members step := by
      refine Sweeps.best_sweep fun ms hms i hi hleaves hcovers ↦ ?_
      obtain ⟨agent, hagent⟩ : ∃ agent, agents[i]? = some agent :=
        ⟨_, List.getElem?_eq_getElem (hpool i (hms.subset hi))⟩
      rw [answerAt_eq hagent] at hleaves
      exact exists_outranking hagent hleaves hstep hcovers
    have hcovered := congrArg Option.isSome hbest
    rw [Sweeps.isSome_best, Sweeps.isSome_best] at hcovered
    exact ⟨hcovered, hbest⟩
  · intro hequal
    have hsame : Sweeps.sweep (answerAt agents fun coalition agent ↦
          RefPrune.redundant roles steps coalition agent.id) arrival members =
        Sweeps.sweep (answerAt agents (RefPruneId.prunes roles steps table)) arrival members := by
      refine Sweeps.sweep_congr arrival fun ms hms i hi ↦ ?_
      obtain ⟨agent, hagent⟩ : ∃ agent, agents[i]? = some agent :=
        ⟨_, List.getElem?_eq_getElem (hpool i (hms.subset hi))⟩
      rw [answerAt_eq hagent, answerAt_eq hagent, RefPruneId.prunes_eq_redundant
        (mem_shown.mpr ⟨i, hi, hagent⟩) fun m hm ↦ ?_]
      obtain ⟨j, hj, hjm⟩ := mem_shown.mp hm
      rw [← valueAt_eq hjm, ← valueAt_eq hagent]
      exact hequal j (hms.subset hj) i (hms.subset hi)
    obtain ⟨⟨left, churn''⟩, t, hrun, hleft, hchurn', rfl⟩ :=
      ends_sweep (F := F) (RefPrune.leavesBy_redundant roles ctx steps members) hpool arrival churn
        rfl
    dsimp only at hleft hchurn hchurn'
    rw [hsame] at hleft
    subst hleft
    have hcount : churn'' = churn' := by omega
    rw [hrun, hcount]

/-- Where two records cannot be compared, the sweep that asks for it panics. -/
theorem comparable_of_keepsBest (hrecords : Counted table)
    (h : KeepsBest F roles agents table members) :
    Comparable roles table (shown agents members) := by
  intro a ha b hb hid step hcovers hcovers' hover
  obtain ⟨i, hi, hagent⟩ := mem_shown.mp ha
  obtain ⟨acc, t, hrun, -⟩ := h [step] (fun _ ↦ none) ⟨0⟩ [i] 0
  rw [leaves, List.foldlM_cons] at hrun
  obtain ⟨acc', t', hask, -⟩ := bind_eq_ok.mp hrun
  obtain ⟨pos, hpos, -⟩ := exists_findIdx hi
  simp only [askLeave, hpos] at hask
  obtain ⟨coalition, u, hviews, hask⟩ := bind_eq_ok.mp hask
  have hview := viewed_of_views hviews
  obtain ⟨-, rfl⟩ := unwrap_eq_ok.mp hviews
  obtain ⟨agent, u, hunwrap, hask⟩ := bind_eq_ok.mp hask
  obtain ⟨hagent', rfl⟩ := unwrap_eq_ok.mp hunwrap
  cases hagent.symm.trans hagent'
  obtain ⟨decision, u, hcall, -⟩ := bind_eq_ok.mp hask
  rw [call_eq_ok, RefPruneId.run_shouldLeave] at hcall
  obtain ⟨hsteps, htable⟩ := RefPruneId.foldl_showAgent
    (RefPruneId.showAgent ⟨[step], fun _ ↦ none, table⟩ a) coalition
  rw [RefPruneId.outranked_eq_none (hview.eq_shown ▸ hb) (Ne.symm hid) hcovers hcovers' hrecords
    hover hsteps htable] at hcall
  cases hcall

/-- **The identity prune keeps the best records** in all sweeps of a coalition, just if nobody in
it whose record is the largest has to be compared with somebody else who has been counted as
often, or once less. -/
theorem identity_prune_keeps_best_iff (roles : Nat → Option Role) (agents : List CapabilityAgent)
    (members : List Nat) (hpool : ∀ i ∈ members, i < agents.length)
    (table : Nat → Option (UInt64 × UInt64)) (hrecords : Counted table) :
    KeepsBest F roles agents table members ↔ Comparable roles table (shown agents members) :=
  ⟨comparable_of_keepsBest hrecords, keepsBest_of_comparable hpool⟩

/-- Two agents of one role that hold the same bit. -/
def Sample.twins : List CapabilityAgent := [⟨0, 1, 80⟩, ⟨1, 1, 70⟩]

/-- The one who has performed more often stays. -/
theorem the_better_twin_stays :
    KeepsBest ℚ (fun _ ↦ some 0) Sample.twins (fun id ↦ some (if id = 0 then 3 else 1, 4)) [0, 1] ∧
      ∃ s, leaves (RefPruneId.policy fun _ ↦ some 0 : Policy _ ℚ) Sample.twins ⟨1⟩ [0, 1] [0, 1] 0
        ⟨[(0, 0)], fun _ ↦ none, fun id ↦ some (if id = 0 then 3 else 1, 4)⟩ = .ok ([0], 1) s := by
  have hrecords : Counted fun id ↦ some (if id = 0 then 3 else 1, 4) := fun id ↦ by
    change (if id = 0 then (3 : UInt64) else 1) ≤ 4
    split <;> decide
  refine ⟨(identity_prune_keeps_best_iff _ Sample.twins [0, 1] (by decide) _ hrecords).mpr ?_,
    _, rfl⟩
  intro a _ b _ _ step _ _ hover
  have hlarge : 2 ^ 64 - 2 ≤ (4 : UInt64).toNat := hover.2
  revert hlarge
  decide

/-- After the twins have been counted as often as it goes, one of them always and the other one
never performing, a sweep panics when it compares them. -/
theorem the_largest_twins_are_not_compared :
    ∃ state : PruneIdState, Counted state.records ∧
      (∃ outcomes : List MemberOutcome,
        outcomes.foldlM (RefPruneId.countOutcome fun _ ↦ some 0)
          ⟨[(0, 0)], fun _ ↦ some 1, fun _ ↦ none⟩ = some state) ∧
      state.record 0 = (18446744073709551615, 18446744073709551615) ∧
      state.record 1 = (0, 18446744073709551615) ∧
      ¬KeepsBest ℚ (fun _ ↦ some 0) Sample.twins state.records [0, 1] := by
  have hcounts : ∀ id, RefPruneId.Counts (fun _ ↦ some 0)
      ⟨[(0, 0)], fun _ ↦ some 1, fun _ ↦ none⟩ id := fun id ↦ ⟨0, 1, rfl, rfl, by decide⟩
  obtain ⟨mid, hreaches, hp, hn⟩ := (hcounts 0).exists_reaches true (2 ^ 64 - 1) (by decide)
    (by decide)
  have hmid : mid.record 1 = (0, 0) := hreaches.2.2 1 (by decide)
  obtain ⟨state, hreaches', hp', hn'⟩ := (hreaches.2.1 1 (hcounts 1)).exists_reaches false
    (2 ^ 64 - 1) (by rw [hmid]) (by rw [hmid]; decide)
  have hfirst : state.record 0 = mid.record 0 := hreaches'.2.2 0 (by decide)
  have hcounted : Counted state.records :=
    hreaches'.counted (hreaches.counted fun id ↦ UInt64.le_refl _)
  refine ⟨state, hcounted, ?_, ?_, ?_, fun hkeeps ↦ ?_⟩
  · obtain ⟨⟨outcomes, hrun⟩, -⟩ := hreaches
    obtain ⟨⟨outcomes', hrun'⟩, -⟩ := hreaches'
    refine ⟨outcomes ++ outcomes', ?_⟩
    rw [List.foldlM_append, hrun]
    exact hrun'
  · rw [hfirst]
    exact Prod.ext (UInt64.toNat.inj hp) (UInt64.toNat.inj hn)
  · rw [hmid] at hp' hn'
    exact Prod.ext (UInt64.toNat.inj hp') (UInt64.toNat.inj hn')
  · refine comparable_of_keepsBest hcounted hkeeps ⟨0, 1, 80⟩ (by decide) ⟨1, 1, 70⟩ (by decide)
      (by decide) (0, 0) rfl rfl ⟨?_, ?_⟩
    · change (state.record 0).1.toNat = _
      rw [hfirst, hp]
      rfl
    · change _ ≤ (state.record 1).2.toNat
      rw [hn', hmid]
      decide

end Sweep

end Koalisi.Harness
