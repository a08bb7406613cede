import Koalisi.Topology.Runs

/-!
# Queries and clears

A clear names no object, so `append` files it under none, and the point-in-time
queries never see it.  `RespectsClears` is what one would ask of them: from a clear on,
and until an object is added again, the log answers as the emptied graph would.

The queries meet it exactly as far as there is nothing to forget: a run whose clears
all find their scope empty respects them (`respects_clears_of_find_nothing`), and
unless a join repeats an index no other run does
(`find_nothing_of_respects_clears`).
-/

namespace Koalisi.Topology

open Koalisi.Lib Koalisi.Topology.Hypergraph

variable {G V HE E : Type}

/-! ## The property -/

namespace TemporalEvent

/-- The vertex an event adds, if any. -/
def addedVertex : TemporalEvent V HE → Option VertexIndex
  | .vertexAdded _ index _ => some index
  | _ => none

/-- The hyperedge an event adds, if any. -/
def addedHyperedge : TemporalEvent V HE → Option HyperedgeIndex
  | .hyperedgeAdded _ index _ _ => some index
  | _ => none

end TemporalEvent

/-- From `t` on, a hyperedge not added by an event of `gs` does not exist and has no
members, and there is none at all where `gs` adds none. -/
structure HyperedgesGone (log : EventLog V HE) (t : Timestamp)
    (gs : List (TemporalEvent V HE)) : Prop where
  gone : ∀ h t', t ≤ t' → (∀ e ∈ gs, e.timestamp ≤ t' → e.addedHyperedge ≠ some h) →
    hyperedgeExistsAt log h t' = false ∧ hyperedgeVerticesAt log h t' = none
  count : ∀ t', t ≤ t' → (∀ e ∈ gs, e.timestamp ≤ t' → e.addedHyperedge = none) →
    countHyperedgesAt log t' = 0

/-- From `t` on, a vertex not added by an event of `gs` does not exist, and there is none
at all where `gs` adds none. -/
structure VerticesGone (log : EventLog V HE) (t : Timestamp)
    (gs : List (TemporalEvent V HE)) : Prop where
  gone : ∀ v t', t ≤ t' → (∀ e ∈ gs, e.timestamp ≤ t' → e.addedVertex ≠ some v) →
    vertexExistsAt log v t' = false
  count : ∀ t', t ≤ t' → (∀ e ∈ gs, e.timestamp ≤ t' → e.addedVertex = none) →
    countVerticesAt log t' = 0

/-- A log answers about vertices as another one does. -/
def SameVertices (log log' : EventLog V HE) : Prop :=
  ∀ t, (∀ v, vertexExistsAt log v t = vertexExistsAt log' v t) ∧
    countVerticesAt log t = countVerticesAt log' t

/-- From every clear on, and before anything is added again, the log answers as the emptied
graph would; a clear of the hyperedges changes no answer about vertices. -/
def RespectsClears (log : EventLog V HE) : Prop :=
  ∀ fs c gs, log.events = fs ++ c :: gs → match c.clears with
    | some .graph => HyperedgesGone log c.timestamp gs ∧ VerticesGone log c.timestamp gs
    | some .hyperedges => HyperedgesGone log c.timestamp gs ∧
        SameVertices log (.ofEvents (fs ++ gs))
    | none => True

/-- Every clear of a run that gets to run finds nothing in its scope. -/
def ClearsFindNothing [Hypergraph G V HE E] (self : TemporalHypergraph G V HE)
    (ops : List (Op V HE E)) : Prop :=
  ∀ ops₁ op ops₂ mid, ops = ops₁ ++ op :: ops₂ → run ops₁ self = some mid →
    mid.poisoned = false → match op.clears with
      | some .graph => countVertices mid.graph = 0 ∧ countHyperedges mid.graph = 0
      | some .hyperedges => countHyperedges mid.graph = 0
      | none => True

/-! ## Histories whose clears find nothing -/

/-- What the queries take to exist exists.  The converse fails after a join whose target is
among its sources: the queries take the target to be gone. -/
structure Covers (es : List (TemporalEvent V HE)) (s : GraphState V HE) : Prop where
  vertices : ∀ v, vertexAlive es v = (s.vertices v).isSome
  hyperedges : ∀ h, s.hyperedges h = none → hyperedgeAlive es h = false
  members : ∀ h, s.hyperedges h = none → hyperedgeVertices es h = none

theorem Covers.nil : Covers ([] : List (TemporalEvent V HE)) .empty :=
  ⟨fun _ ↦ rfl, fun _ _ ↦ rfl, fun _ _ ↦ rfl⟩

section Step

variable {s : GraphState V HE} {e : TemporalEvent V HE}

/-- An event that mentions a hyperedge and leaves it gone tells the queries so. -/
theorem hyperedgeStep_of_gone (hl : e.Legal s) {h : HyperedgeIndex} (hk : h ∈ e.hyperedgeKeys)
    (hn : (e.effect s).hyperedges h = none) (existed : Bool)
    (vertices : Option (List VertexIndex)) :
    hyperedgeExistsStep h existed e = false ∧ hyperedgeVerticesStep h vertices e = none := by
  cases e with
  | hyperedgeAdded _ index vs w =>
      cases List.mem_singleton.mp hk
      simp [TemporalEvent.effect, GraphState.setHyperedge] at hn
  | hyperedgeRemoved => exact ⟨rfl, rfl⟩
  | hyperedgeWeightUpdated _ index old new =>
      cases List.mem_singleton.mp hk
      obtain ⟨vs, hs⟩ := hl
      simp [TemporalEvent.effect, GraphState.setWeight, hs] at hn
  | hyperedgeVerticesUpdated _ index old new | hyperedgeReversed _ index old new
  | verticesContracted _ index _ _ old new =>
      cases List.mem_singleton.mp hk
      obtain ⟨w, hs⟩ := hl
      simp [TemporalEvent.effect, GraphState.setMembers, hs] at hn
  | hyperedgesJoined _ target sources new =>
      obtain ⟨p, hs⟩ := hl
      by_cases ht : h = target
      · -- The target of a join stays.
        subst ht
        simp [TemporalEvent.effect, GraphState.setMembers, GraphState.dropHyperedges, hs] at hn
      · have hm : h ∈ sources := (List.mem_cons.mp hk).resolve_left ht
        simp [hyperedgeExistsStep, hyperedgeVerticesStep, hm, Ne.symm ht]
  | _ => cases hk

/-- A hyperedge that is gone comes back only by being added. -/
theorem effect_hyperedges_none {h : HyperedgeIndex} (hn : s.hyperedges h = none)
    (ha : e.addedHyperedge ≠ some h) : (e.effect s).hyperedges h = none := by
  cases e with
  | hyperedgeAdded _ index vs w =>
      have hi : h ≠ index := fun hi ↦ ha (by rw [hi]; rfl)
      simp [TemporalEvent.effect, GraphState.setHyperedge, hi, hn]
  | _ => simp [TemporalEvent.effect, GraphState.empty, GraphState.setVertex,
      GraphState.dropVertex, GraphState.dropHyperedges, GraphState.setMembers,
      GraphState.setWeight, GraphState.clearHyperedges, hn]

/-- A vertex that is gone comes back only by being added. -/
theorem effect_vertices_none (hl : e.Legal s) {v : VertexIndex} (hn : s.vertices v = none)
    (ha : e.addedVertex ≠ some v) : (e.effect s).vertices v = none := by
  cases e with
  | vertexAdded _ index w =>
      have hi : v ≠ index := fun hi ↦ ha (by rw [hi]; rfl)
      simp [TemporalEvent.effect, GraphState.setVertex, hi, hn]
  | vertexWeightUpdated _ index old new =>
      have hi : v ≠ index := by
        rintro rfl
        rw [show s.vertices v = some old from hl] at hn
        cases hn
      simp [TemporalEvent.effect, GraphState.setVertex, hi, hn]
  | _ => simp [TemporalEvent.effect, GraphState.empty, GraphState.setHyperedge,
      GraphState.dropVertex, GraphState.dropHyperedges, GraphState.setMembers,
      GraphState.setWeight, GraphState.clearHyperedges, hn]

/-- Both clears remove every hyperedge. -/
theorem effect_hyperedges_of_clears (hc : e.clears ≠ none) (h : HyperedgeIndex) :
    (e.effect s).hyperedges h = none := by
  cases e with
  | hyperedgesCleared | graphCleared => rfl
  | _ => exact absurd rfl hc

/-- A clear of the graph removes every vertex. -/
theorem effect_vertices_of_clears (hc : e.clears = some .graph) (v : VertexIndex) :
    (e.effect s).vertices v = none := by
  cases e with
  | graphCleared => rfl
  | _ => cases hc

end Step

theorem History.covers {es : List (TemporalEvent V HE)} {s : GraphState V HE}
    (h : History es s) (hc : ClearsNothingIn es) : Covers es s := by
  induction h with
  | nil => exact Covers.nil
  | @snoc es s e h hl ih =>
      have hpre : Covers es s := ih hc.of_append
      have hce : e.ClearsNothing s := hc es e [] s rfl h
      refine ⟨fun v ↦ vertexAlive_snoc hl hce (hpre.vertices v), fun he hn ↦ ?_, fun he hn ↦ ?_⟩
      · rw [hyperedgeAlive_concat]
        split
        · rename_i hk
          exact (hyperedgeStep_of_gone hl hk hn _ none).1
        · rename_i hk
          exact hpre.hyperedges he (by rwa [effect_hyperedges_of_unmentioned hce hk] at hn)
      · rw [hyperedgeVertices_concat]
        split
        · rename_i hk
          exact (hyperedgeStep_of_gone hl hk hn false _).2
        · rename_i hk
          exact hpre.members he (by rwa [effect_hyperedges_of_unmentioned hce hk] at hn)

/-! ## From histories to logs -/

section Logs

variable [Hypergraph G V HE E] {value : TemporalHypergraph G V HE}

/-- Later events that do not add a hyperedge keep it gone after a clear. -/
theorem Coherent.hyperedgesGone (hc : Coherent value)
    (hn : ClearsNothingIn value.events.events) {fs gs : List (TemporalEvent V HE)}
    {c : TemporalEvent V HE} (hs : value.events.events = fs ++ c :: gs)
    (hclear : c.clears ≠ none) : HyperedgesGone value.events c.timestamp gs := by
  -- At an instant from the clear on, a hyperedge not added since is dead.
  have hdead : ∀ h t', c.timestamp ≤ t' →
      (∀ e ∈ gs, e.timestamp ≤ t' → e.addedHyperedge ≠ some h) →
      ∃ es, SplitsAt value.events t' es ∧ hyperedgeAlive es h = false ∧
        hyperedgeVertices es h = none := by
    intro h t' ht hadd
    obtain ⟨gs₁, gs₂, rfl, hsplit⟩ := hc.splitsAt_after hs ht
    have hhist := hc.history
    rw [hs] at hhist hn
    rw [← List.cons_append, ← List.append_assoc] at hhist hn
    obtain ⟨s', hs'⟩ := hhist.of_append
    have hgone : s'.hyperedges h = none := by
      rw [← List.singleton_append, ← List.append_assoc] at hs'
      refine hs'.preserves (P := fun s ↦ s.hyperedges h = none) (fun s₀ h₀ ↦ ?_)
        fun e he s hns _ ↦ effect_hyperedges_none hns (hadd e (by simp [he]) ?_)
      · obtain ⟨s₁, _, _, rfl⟩ := h₀.snoc_inv
        exact effect_hyperedges_of_clears hclear h
      · exact hsplit.early e (by simp [he])
    have hcov := hs'.covers hn.of_append
    exact ⟨_, hsplit, hcov.hyperedges h hgone, hcov.members h hgone⟩
  refine ⟨fun h t' ht hadd ↦ ?_, fun t' ht hadd ↦ ?_⟩
  · obtain ⟨es, hsplit, ha, hm⟩ := hdead h t' ht hadd
    rw [hsplit.hyperedgeExistsAt_eq, hsplit.hyperedgeVerticesAt_eq]
    exact ⟨ha, hm⟩
  · obtain ⟨gs₁, gs₂, _, hsplit⟩ := hc.splitsAt_after hs ht
    rw [hsplit.countHyperedgesAt_eq (s := ∅) fun h ↦ ?_, Finset.card_empty]
    obtain ⟨es, hsplit', ha, _⟩ := hdead h t' ht fun e he hle ↦ by rw [hadd e he hle]; simp
    rw [← hsplit.hyperedgeExistsAt_eq, hsplit'.hyperedgeExistsAt_eq, ha]
    simp

/-- Later events that do not add a vertex keep it gone after a clear of the graph. -/
theorem Coherent.verticesGone (hc : Coherent value)
    (hn : ClearsNothingIn value.events.events) {fs gs : List (TemporalEvent V HE)}
    {c : TemporalEvent V HE} (hs : value.events.events = fs ++ c :: gs)
    (hclear : c.clears = some .graph) : VerticesGone value.events c.timestamp gs := by
  have hdead : ∀ v t', c.timestamp ≤ t' →
      (∀ e ∈ gs, e.timestamp ≤ t' → e.addedVertex ≠ some v) →
      vertexExistsAt value.events v t' = false := by
    intro v t' ht hadd
    obtain ⟨gs₁, gs₂, rfl, hsplit⟩ := hc.splitsAt_after hs ht
    have hhist := hc.history
    rw [hs] at hhist hn
    rw [← List.cons_append, ← List.append_assoc] at hhist hn
    obtain ⟨s', hs'⟩ := hhist.of_append
    have hgone : s'.vertices v = none := by
      rw [← List.singleton_append, ← List.append_assoc] at hs'
      refine hs'.preserves (P := fun s ↦ s.vertices v = none) (fun s₀ h₀ ↦ ?_)
        fun e he s hns hl ↦ effect_vertices_none hl hns (hadd e (by simp [he]) ?_)
      · obtain ⟨s₁, _, _, rfl⟩ := h₀.snoc_inv
        exact effect_vertices_of_clears hclear v
      · exact hsplit.early e (by simp [he])
    rw [hsplit.vertexExistsAt_eq, (hs'.covers hn.of_append).vertices v, hgone]
    rfl
  refine ⟨hdead, fun t' ht hadd ↦ ?_⟩
  obtain ⟨gs₁, gs₂, _, hsplit⟩ := hc.splitsAt_after hs ht
  rw [hsplit.countVerticesAt_eq (s := ∅) fun v ↦ ?_, Finset.card_empty]
  rw [← hsplit.vertexExistsAt_eq, hdead v t' ht fun e he hle ↦ by rw [hadd e he hle]; simp]
  simp

/-- An event that mentions no vertex changes no answer about vertices. -/
theorem sameVertices_of_unmentioned {log : EventLog V HE} {fs gs : List (TemporalEvent V HE)}
    {c : TemporalEvent V HE} (hs : log.events = fs ++ c :: gs) (hk : c.vertexKeys = []) :
    SameVertices log (.ofEvents (fs ++ gs)) := by
  have hev : ∀ v, log.vertexEvents v = (EventLog.ofEvents (fs ++ gs)).vertexEvents v := by
    intro v
    rw [EventLog.vertexEvents_eq, EventLog.vertexEvents_eq, EventLog.events_ofEvents, hs]
    simp [Timeline.mentions, hk]
  have hexists : ∀ v t, vertexExistsAt log v t =
      vertexExistsAt (.ofEvents (fs ++ gs)) v t := fun v t ↦ by
    rw [vertexExistsAt, vertexExistsAt, hev]
  refine fun t ↦ ⟨fun v ↦ hexists v t, ?_⟩
  rw [countVerticesAt, countVerticesAt]
  simp only [hexists]
  -- Both indices list the same vertices, in an order that does not matter to a count.
  refine (List.Perm.filter _ ?_).length_eq
  rw [List.perm_ext_iff_of_nodup (EventLog.nodup_vertexIndices _)
    (EventLog.nodup_vertexIndices _)]
  intro v
  rw [EventLog.mem_vertexIndices, EventLog.mem_vertexIndices, EventLog.events_ofEvents, hs]
  simp [hk, or_and_right, exists_or]

/-- A log whose clears find nothing respects them. -/
theorem Coherent.respectsClears (hc : Coherent value)
    (hn : ClearsNothingIn value.events.events) : RespectsClears value.events := by
  intro fs c gs hs
  cases hcl : c.clears with
  | none => trivial
  | some scope =>
      have hgone := hc.hyperedgesGone hn hs (by rw [hcl]; simp)
      cases scope with
      | graph => exact ⟨hgone, hc.verticesGone hn hs hcl⟩
      | hyperedges =>
          refine ⟨hgone, sameVertices_of_unmentioned hs ?_⟩
          cases c with
          | hyperedgesCleared => rfl
          | _ => cases hcl

/-- A log that respects its clears, and whose joins name their targets once, has only
clears that find nothing: the first one that found something would be forgotten. -/
theorem Coherent.clearsNothingIn (hc : Coherent value)
    (hj : ∀ e ∈ value.events.events, e.JoinsApart) (hr : RespectsClears value.events) :
    ClearsNothingIn value.events.events := by
  suffices h : ∀ n fs e gs s₀, fs.length = n → value.events.events = fs ++ e :: gs →
      History fs s₀ → e.ClearsNothing s₀ from
    fun fs e gs s₀ hs hh ↦ h _ fs e gs s₀ rfl hs hh
  intro n
  induction n using Nat.strongRecOn with
  | _ n ih =>
      rintro fs e gs s₀ rfl hs hh
      have hbefore : ClearsNothingIn fs := fun fs₁ e₁ gs₁ s₁ hs₁ hh₁ ↦
        ih fs₁.length (by rw [hs₁]; simp) fs₁ e₁ (gs₁ ++ e :: gs) s₁ rfl
          (by rw [hs, hs₁]; simp) hh₁
      have hagree := hh.agrees (fun e' he' ↦ hj e' (by rw [hs]; simp [he'])) hbefore
      have hsplit := hc.splitsAt hs
      have hre := hr fs e gs hs
      -- At the instant of the clear the queries still answer from before it.
      have hhyper : HyperedgesGone value.events e.timestamp gs → e.hyperedgeKeys = [] →
          ∀ h, s₀.hyperedges h = none := by
        intro hgone hk h
        have hdead := (hgone.gone h _ le_rfl
          fun e' he' hle ↦ (hc.not_le_of_later hs he' hle).elim).1
        rw [hsplit.hyperedgeExistsAt_eq, hyperedgeAlive_concat, hk, if_neg (by simp),
          hagree.hyperedgeAlive_eq] at hdead
        simpa using hdead
      cases e with
      | hyperedgesCleared => exact hhyper hre.1 rfl
      | graphCleared =>
          refine ⟨fun v ↦ ?_, hhyper hre.1 rfl⟩
          have hdead := hre.2.gone v _ le_rfl fun e' he' hle ↦ (hc.not_le_of_later hs he' hle).elim
          rw [hsplit.vertexExistsAt_eq, vertexAlive_concat, if_neg (by exact List.not_mem_nil),
            hagree.vertexAlive_eq] at hdead
          simpa using hdead
      | _ => trivial

end Logs

/-! ## Runs -/

section Runs

variable [Hypergraph G V HE E] [LawfulHypergraph G]

theorem countVertices_eq_zero {g : G} :
    countVertices g = 0 ↔ ∀ v, (state g).vertices v = none := by
  obtain ⟨s, hs, hcount⟩ := LawfulHypergraph.countVertices_eq g
  rw [hcount, Finset.card_eq_zero, Finset.eq_empty_iff_forall_notMem]
  exact forall_congr' fun v ↦ by rw [hs, not_not]

theorem countHyperedges_eq_zero {g : G} :
    countHyperedges g = 0 ↔ ∀ h, (state g).hyperedges h = none := by
  obtain ⟨s, hs, hcount⟩ := LawfulHypergraph.countHyperedges_eq g
  rw [hcount, Finset.card_eq_zero, Finset.eq_empty_iff_forall_notMem]
  exact forall_congr' fun h ↦ by rw [hs, not_not]

omit [LawfulHypergraph G] in
/-- A failed operation records nothing. -/
theorem Failed.not_records {self self' : TemporalHypergraph G V HE} {e : TemporalEvent V HE}
    (hf : Failed self self') (hr : Records self e self') : False := by
  have hlen := congrArg (fun log ↦ log.events.length) hr.events
  rcases hf with hf | hf <;> rw [hf] at hlen <;> simp at hlen

/-- A clear that gets to run records. -/
theorem records_of_clears {op : Op V HE E} {self : TemporalHypergraph G V HE}
    (hp : self.poisoned = false) (hc : op.clears ≠ none) :
    ∃ e, Records self e (op.apply self) ∧ e.clears = op.clears := by
  rcases op.apply_cases self with hf | ⟨e, hr, hcl, _⟩
  · exfalso
    obtain ⟨graph, event, happly⟩ : ∃ graph event,
        op.apply self = self.recorded graph event := by
      cases op with
      | createSnapshot => exact absurd rfl hc
      | mutate call =>
          cases call with
          | clear | clearHyperedges => exact ⟨_, _, apply_recorded hp rfl⟩
          | _ => exact absurd rfl hc
    have hlen : ∀ log : EventLog V HE, log.append event ≠ log := fun log hl ↦ by
      simpa using congrArg (fun log ↦ log.events.length) hl
    rw [happly] at hf
    rcases hf with hf | hf <;> exact hlen _ (congrArg (fun value ↦ value.events) hf)
  · exact ⟨e, hr, hcl⟩

/-- **When the queries respect clears.**  They do in every run whose clears find nothing to
clear, and unless a join repeats an index they do in no other run. -/
theorem queries_respect_clears_iff (tap : Option (Channel (TemporalEvent V HE)))
    (ops : List (Op V HE E)) (fin : TemporalHypergraph G V HE)
    (h : run ops (start tap) = some fin) :
    (ClearsFindNothing (start tap : TemporalHypergraph G V HE) ops →
      RespectsClears fin.events) ∧
    ((∀ op ∈ ops, op.JoinsDistinct) → RespectsClears fin.events →
      ClearsFindNothing (start tap : TemporalHypergraph G V HE) ops) := by
  have hcoh := (coherent_start tap).run h
  refine ⟨fun hfind ↦ hcoh.respectsClears fun fs e gs s₀ hs hh ↦ ?_, fun hj hr ↦ ?_⟩
  · obtain ⟨ops₁, op, ops₂, mid, rfl, hmid, hfs, hrec, hcl, _⟩ := run_fresh_event h hs
    have hstate : state mid.graph = s₀ :=
      hh.unique (by rw [← hfs]; exact ((coherent_start tap).run hmid).history)
    have hnothing := hfind ops₁ op ops₂ mid rfl hmid
    cases op with
    | createSnapshot =>
        rw [TemporalEvent.ClearsNothing, hcl]
        trivial
    | mutate call =>
        have hp : mid.poisoned = false := by
          by_contra hp
          exact Failed.not_records (Or.inl (apply_poisoned (by simpa using hp))) hrec
        have hnothing := hnothing hp
        rw [TemporalEvent.ClearsNothing, hcl, ← hstate]
        cases hscope : (Op.mutate call).clears with
        | none => trivial
        | some scope =>
            rw [hscope] at hnothing
            cases scope with
            | graph =>
                exact ⟨countVertices_eq_zero.mp hnothing.1, countHyperedges_eq_zero.mp hnothing.2⟩
            | hyperedges => exact countHyperedges_eq_zero.mp hnothing
  · have hin : ClearsNothingIn fin.events.events := hcoh.clearsNothingIn (fun e he ↦ by
      obtain ⟨fs, gs, hs⟩ := List.append_of_mem he
      obtain ⟨ops₁, op, ops₂, mid, rfl, _, _, _, _, hapart⟩ := run_fresh_event h hs
      exact hapart (hj op (by simp))) hr
    intro ops₁ op ops₂ mid hops hmid hp
    cases hscope : op.clears with
    | none => trivial
    | some scope =>
        obtain ⟨e, hrec, hcl⟩ := records_of_clears hp (by rw [hscope]; simp)
        -- The event of this clear is in the final log, after the events of `mid`.
        rw [hops] at h
        obtain ⟨gs, hgs⟩ := run_events (run_after h hmid)
        have hnothing := hin mid.events.events e gs (state mid.graph)
          (by rw [hgs, hrec.events, EventLog.events_append, List.append_assoc]; rfl)
          ((coherent_start tap).run hmid).history
        rw [TemporalEvent.ClearsNothing, hcl, hscope] at hnothing
        cases scope with
        | graph =>
            exact ⟨countVertices_eq_zero.mpr hnothing.1, countHyperedges_eq_zero.mpr hnothing.2⟩
        | hyperedges => exact countHyperedges_eq_zero.mpr hnothing

end Runs

/-- A vertex is added, and the graph is cleared. -/
def addClearOps : List (Op Nat Nat MapGraphError) := [.mutate (.addVertex 5), .mutate .clear]

/-- The vertex of a cleared graph still exists for the queries. -/
theorem queries_forget_a_clear : ∃ fin : TemporalHypergraph (MapGraph Nat Nat) Nat Nat,
    run addClearOps (start none) = some fin ∧
    fin.events.events = [.vertexAdded 0 0 5, .graphCleared 1 1 0] ∧
    countVertices fin.graph = 0 ∧ vertexExistsAt fin.events 0 1 = true ∧
    countVerticesAt fin.events 1 = 1 ∧ ¬ RespectsClears fin.events := by
  refine ⟨issue addClearOps (start none), rfl, rfl, rfl, rfl, rfl, ?_⟩
  intro h
  have hgone := (h [.vertexAdded 0 0 5] (.graphCleared 1 1 0) [] rfl).2
  exact absurd (hgone.gone 0 1 le_rfl (by simp)) (by decide)

/-- The vertex is removed before the graph is cleared. -/
theorem queries_respect_a_clear_of_nothing :
    ∃ fin : TemporalHypergraph (MapGraph Nat Nat) Nat Nat,
      run [.mutate (.addVertex 5), .mutate (.removeVertex 0), .mutate .clear] (start none) =
        some fin ∧ RespectsClears fin.events := by
  have hrun : run [.mutate (.addVertex 5), .mutate (.removeVertex 0), .mutate .clear]
      (start none : TemporalHypergraph (MapGraph Nat Nat) Nat Nat) =
    some (issue [.mutate (.addVertex 5), .mutate (.removeVertex 0), .mutate .clear]
      (start none)) := rfl
  refine ⟨_, hrun, (queries_respect_clears_iff none _ _ hrun).1 ?_⟩
  intro ops₁ op ops₂ mid hops hmid _
  rcases ops₁ with _ | ⟨op₁, _ | ⟨op₂, _ | ⟨op₃, ops₁⟩⟩⟩
  · cases hops
    trivial
  · cases hops
    trivial
  · cases hops
    cases hmid
    exact ⟨rfl, rfl⟩
  · simp at hops

end Koalisi.Topology
