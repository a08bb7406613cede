import Koalisi.Algorithms.Population
import Koalisi.Topology.Coalitions
import Koalisi.Topology.TimeTravel

/-!
# The history of a search

`recordTrajectory` writes the lineage of a search into a coalition manager: the agents
become vertices, and each structure of the lineage, an epoch, becomes the coalitions of its
blocks, once the coalitions of the epoch before are dissolved.

One step of it is a mutation of the temporal hypergraph that succeeds (`Traced.mutate`).
Between two epochs the live coalitions are the blocks of the last one, `Standing`; the log
is read at that instant by the object folds, which agree with the live graph.
-/

namespace Koalisi.Algorithms

open Koalisi.Lib Koalisi.Lib.Fallible Koalisi.Lib.Labelling
open Koalisi.Topology Koalisi.Topology.Hypergraph

variable {F G V HE E : Type}

/-! ## Recording -/

/-- Group agent indices by block. -/
def CoalitionStructure.blocks (s : CoalitionStructure F) : Option (List (List Nat)) :=
  assignmentBlocks s.assignment

/-- An index that panics when it is out of bounds. -/
def orPanic {σ α : Type} (x : Option α) : EStateM (Fault E) σ α := look fun _ ↦
  match x with
  | some a => .ok a
  | none => .error .panic

theorem orPanic_eq_ok {σ α : Type} {x : Option α} {a : α} (h : x = some a) (s : σ) :
    (orPanic x : EStateM (Fault E) σ α) s = .ok a s := by
  subst h
  rfl

theorem mapM_orPanic {σ : Type} {vmap : List VertexIndex} {l : List Nat}
    {members : List VertexIndex}
    (h : List.Forall₂ (fun i v ↦ vmap[i]? = some v) l members) (s : σ) :
    (l.mapM fun i ↦ (orPanic vmap[i]? : EStateM (Fault E) σ _)) s = .ok members s := by
  induction h with
  | nil => rfl
  | cons hab _ ih =>
      rw [List.mapM_cons]
      exact bind_eq_ok.mpr ⟨_, s, orPanic_eq_ok hab s, bind_eq_ok.mpr ⟨_, s, ih, rfl⟩⟩

section Record

variable [Hypergraph G V HE E]

/-- Ask the manager to add an agent. -/
def addAgent (agent : V) : EStateM (Fault E) (TemporalHypergraph G V HE) VertexIndex :=
  TemporalHypergraph.mutate (CoalitionManager.addAgent agent : Call V HE E).mutation

/-- Ask the manager to dissolve a coalition. -/
def dissolveCoalition (edge : HyperedgeIndex) :
    EStateM (Fault E) (TemporalHypergraph G V HE) Unit :=
  TemporalHypergraph.mutate (CoalitionManager.dissolveCoalition edge : Call V HE E).mutation

/-- Ask the manager to form a coalition. -/
def formCoalition (members : List VertexIndex) (weight : HE) :
    EStateM (Fault E) (TemporalHypergraph G V HE) HyperedgeIndex :=
  TemporalHypergraph.mutate (CoalitionManager.formCoalition members weight : Call V HE E).mutation

/-- Add the agents, and collect their vertices. -/
def recordAgents (agents : List V) :
    EStateM (Fault E) (TemporalHypergraph G V HE) (List VertexIndex) :=
  agents.mapM addAgent

/-- Dissolve the coalitions of the epoch before. -/
def dissolveAll (prev : List HyperedgeIndex) :
    EStateM (Fault E) (TemporalHypergraph G V HE) Unit :=
  prev.foldlM (fun _ edge ↦ dissolveCoalition edge) ()

variable [Inhabited HE]

/-- Form one coalition for each block. -/
def formBlocks (vmap : List VertexIndex) (blocks : List (List Nat)) :
    EStateM (Fault E) (TemporalHypergraph G V HE) (List HyperedgeIndex) :=
  blocks.foldlM (fun prev block ↦
    if block.isEmpty then return prev
    else do
      let members ← block.mapM fun i ↦ orPanic vmap[i]?
      let edge ← formCoalition members default
      return prev ++ [edge]) []

/-- One epoch: the old coalitions go, the new ones come. -/
def recordEpoch (vmap : List VertexIndex) (prev : List HyperedgeIndex)
    (epoch : CoalitionStructure F) :
    EStateM (Fault E) (TemporalHypergraph G V HE) (List HyperedgeIndex) := do
  dissolveAll prev
  let blocks ← orPanic epoch.blocks
  formBlocks vmap blocks

/-- Record a lineage as successive epochs of the temporal hypergraph. -/
def recordTrajectory (agents : List V) (lineage : List (CoalitionStructure F)) :
    EStateM (Fault E) (TemporalHypergraph G V HE) Unit := do
  let vmap ← recordAgents agents
  let _ ← lineage.foldlM (recordEpoch vmap) []
  return ()

end Record

/-! ## One mutation -/

section Traced

variable [Hypergraph G V HE E] [GrowingHypergraph G]

/-- The graph can be written, and its log tells its contents. -/
structure Traced (value : TemporalHypergraph G V HE) : Prop where
  sound : value.poisoned = false
  tidy : GrowingHypergraph.Tidy value.graph
  agrees : Agrees value.events.events (state value.graph)
  /-- As far as the log fits in memory. -/
  coherent : value.events.len ≤ vecMax → Coherent value

/-- A mutation whose job succeeds appends one event. -/
theorem Traced.mutate {self : TemporalHypergraph G V HE} (h : Traced self) (call : Call V HE E)
    (hclears : call.clears = none) (hjoins : call.JoinsDistinct)
    {finish : Timestamp → TemporalEvent V HE × call.Reply} {graph : G}
    (hm : (call.mutation : Mutation G V HE E call.Reply) self.graph = .ok finish graph)
    (htidy : GrowingHypergraph.Tidy graph) :
    Ends (TemporalHypergraph.mutate call.mutation) self fun value self' ↦
      value = (finish self.clock.current).2 ∧ self'.graph = graph ∧
        self.events.events <+: self'.events.events ∧ Traced self' := by
  have hok : TemporalHypergraph.mutate call.mutation self = .ok (finish self.clock.current).2
      (self.recorded graph (finish self.clock.current).1) :=
    TemporalHypergraph.mutate_eq_ok.mpr ⟨h.sound, finish, graph, hm, rfl, rfl⟩
  obtain ⟨event, hrecords, hcl, hapart⟩ := records_of_ok hok
  have hnothing : event.ClearsNothing (state self.graph) := by
    rw [TemporalEvent.ClearsNothing, hcl, hclears]
    trivial
  have hevents : (self.recorded graph (finish self.clock.current).1).events.events =
      self.events.events ++ [event] := by
    rw [hrecords.events, EventLog.events_append]
  refine ⟨_, _, hok, rfl, rfl, ⟨[event], hevents.symm⟩, h.sound, htidy, ?_, fun hroom ↦ ?_⟩
  · rw [hevents, hrecords.graph]
    exact h.agrees.snoc hrecords.legal hnothing (hapart hjoins)
  · have hlt : self.events.len < vecMax := by
      rw [EventLog.len, hevents, List.length_append] at hroom
      exact hroom
    exact (h.coherent hlt.le).records hlt hrecords

theorem traced_start (tap : Option (Channel (TemporalEvent V HE))) :
    Traced (start tap : TemporalHypergraph G V HE) := by
  have hagrees : Agrees [] (state (Hypergraph.new : G)) := by
    rw [LawfulHypergraph.state_new]
    exact Agrees.nil
  cases tap with
  | none => exact ⟨rfl, GrowingHypergraph.tidy_new, hagrees, fun _ ↦ coherent_start none⟩
  | some tap => exact ⟨rfl, GrowingHypergraph.tidy_new, hagrees, fun _ ↦ coherent_start (some tap)⟩

variable {self : TemporalHypergraph G V HE}

theorem Traced.addAgent (h : Traced self) (agent : V) :
    Ends (Algorithms.addAgent agent) self
      fun v self' ↦ (state self.graph).vertices v = none ∧
        state self'.graph = (state self.graph).setVertex v agent ∧
        self.events.events <+: self'.events.events ∧ Traced self' := by
  cases hadd : addVertex agent self.graph with
  | mk v graph =>
      have hm : (CoalitionManager.addAgent agent : Call V HE E).mutation self.graph =
          .ok (fun t ↦ (.vertexAdded t v agent, v)) graph :=
        mutation_eq_ok.mpr ⟨v, by rw [Job.total, hadd], rfl⟩
      refine (h.mutate (CoalitionManager.addAgent agent) rfl trivial hm
        (GrowingHypergraph.tidy_addVertex _ _ _ _ h.tidy hadd)).imp ?_
      rintro _ self' ⟨rfl, hgraph, hlog, htraced⟩
      refine ⟨GrowingHypergraph.addVertex_fresh _ _ _ _ h.tidy hadd, ?_, hlog, htraced⟩
      rw [hgraph]
      exact LawfulHypergraph.addVertex_ok _ _ _ _ hadd

theorem Traced.dissolveCoalition (h : Traced self) {edge : HyperedgeIndex}
    (hlive : (state self.graph).hyperedges edge ≠ none) :
    Ends (Algorithms.dissolveCoalition edge) self
      fun _ self' ↦ state self'.graph = (state self.graph).dropHyperedges [edge] ∧
        self.events.events <+: self'.events.events ∧ Traced self' := by
  obtain ⟨⟨vs, w⟩, hedge⟩ := Option.ne_none_iff_exists'.mp hlive
  obtain ⟨hvs, hw⟩ := state_hyperedges_eq_some.mp hedge
  obtain ⟨graph, hremove⟩ := GrowingHypergraph.removeHyperedge_succeeds edge _ h.tidy hlive
  have hm : (CoalitionManager.dissolveCoalition edge : Call V HE E).mutation self.graph =
      .ok (fun t ↦ (.hyperedgeRemoved t edge vs w, ())) graph := by
    refine mutation_eq_ok.mpr ⟨(vs, w), ?_, rfl⟩
    refine bind_read_eq_ok.mpr ⟨vs, hvs, bind_read_eq_ok.mpr ⟨w, hw, ?_⟩⟩
    exact bind_write_eq_ok.mpr ⟨(), graph, hremove, rfl⟩
  refine (h.mutate (CoalitionManager.dissolveCoalition edge) rfl trivial hm
    (GrowingHypergraph.tidy_removeHyperedge _ _ _ h.tidy hremove)).imp ?_
  rintro _ self' ⟨-, hgraph, hlog, htraced⟩
  refine ⟨?_, hlog, htraced⟩
  rw [hgraph]
  exact LawfulHypergraph.removeHyperedge_ok _ _ _ hremove

theorem Traced.formCoalition (h : Traced self) {members : List VertexIndex} (weight : HE)
    (hne : members ≠ []) (hnodup : members.Nodup)
    (hlive : ∀ v ∈ members, (state self.graph).vertices v ≠ none)
    (hnew : ∀ edge, (state self.graph).hyperedges edge ≠ some (members, weight)) :
    Ends (Algorithms.formCoalition members weight) self
      fun edge self' ↦ (state self.graph).hyperedges edge = none ∧
        state self'.graph = (state self.graph).setHyperedge edge members weight ∧
        self.events.events <+: self'.events.events ∧ Traced self' := by
  obtain ⟨edge, graph, hadd⟩ :=
    GrowingHypergraph.addHyperedge_succeeds members weight _ h.tidy hne hnodup hlive hnew
  have hm : (CoalitionManager.formCoalition members weight : Call V HE E).mutation self.graph =
      .ok (fun t ↦ (.hyperedgeAdded t edge members weight, edge)) graph :=
    mutation_eq_ok.mpr ⟨edge, Job.write_eq_ok.mpr hadd, rfl⟩
  refine (h.mutate (CoalitionManager.formCoalition members weight) rfl trivial hm
    (GrowingHypergraph.tidy_addHyperedge _ _ _ _ _ h.tidy hadd)).imp ?_
  rintro _ self' ⟨rfl, hgraph, hlog, htraced⟩
  refine ⟨GrowingHypergraph.addHyperedge_fresh _ _ _ _ _ h.tidy hadd, ?_, hlog, htraced⟩
  rw [hgraph]
  exact LawfulHypergraph.addHyperedge_ok _ _ _ _ _ hadd

end Traced

/-! ## The agents -/

section Contents

/-- The vertices hold the agents, one each. -/
structure Peopled (agents : List V) (vmap : List VertexIndex) (s : GraphState V HE) : Prop where
  vertices : List.Forall₂ (fun agent v ↦ s.vertices v = some agent) agents vmap
  nodup : vmap.Nodup

theorem Peopled.congr {agents : List V} {vmap : List VertexIndex} {s t : GraphState V HE}
    (h : Peopled agents vmap s) (ht : t.vertices = s.vertices) : Peopled agents vmap t :=
  ⟨ht ▸ h.vertices, h.nodup⟩

theorem Peopled.live {agents : List V} {vmap : List VertexIndex} {s : GraphState V HE}
    (h : Peopled agents vmap s) {v : VertexIndex} (hv : v ∈ vmap) : s.vertices v ≠ none := by
  refine forall_of_forall₂ (P := fun v ↦ s.vertices v ≠ none) (h.vertices.imp ?_) v hv
  intro agent v hagent
  rw [hagent]
  exact Option.some_ne_none agent

/-- One more agent. -/
theorem Peopled.add {agents : List V} {vmap : List VertexIndex} {s : GraphState V HE}
    (h : Peopled agents vmap s) {v : VertexIndex} (hv : s.vertices v = none) (agent : V) :
    Peopled (agents ++ [agent]) (vmap ++ [v]) (s.setVertex v agent) := by
  have hnew : v ∉ vmap := fun hmem ↦ h.live hmem hv
  constructor
  · refine List.rel_append ?_ (.cons (if_pos rfl) .nil)
    refine forall₂_imp_of_mem h.vertices fun agent' v' hv' hagent ↦ ?_
    have hne : v' ≠ v := fun he ↦ hnew (he ▸ hv')
    exact (if_neg hne).trans hagent
  · refine List.nodup_append.mpr ⟨h.nodup, List.nodup_singleton v, ?_⟩
    intro v' hv' w hw he
    rw [List.mem_singleton.mp hw] at he
    exact hnew (he ▸ hv')

/-! ## The coalitions -/

variable [Inhabited HE]

/-- The hyperedges are these, with these members and no data of their own. -/
structure Standing (members : List (List VertexIndex)) (edges : List HyperedgeIndex)
    (s : GraphState V HE) : Prop where
  nodup : edges.Nodup
  length : edges.length = members.length
  hyperedges : ∀ h p, s.hyperedges h = some p ↔ p.2 = default ∧ (h, p.1) ∈ edges.zip members

variable {members : List (List VertexIndex)} {edges : List HyperedgeIndex} {s : GraphState V HE}

theorem standing_empty (h : ∀ edge, s.hyperedges edge = none) : Standing [] [] s := by
  refine ⟨List.nodup_nil, rfl, fun edge p ↦ ?_⟩
  rw [h edge]
  exact ⟨fun hn ↦ absurd hn (Option.some_ne_none p).symm, fun hmem ↦ absurd hmem.2 List.not_mem_nil⟩

/-- The first of the coalitions is dissolved. -/
theorem Standing.dissolve {vs : List VertexIndex} {edge : HyperedgeIndex}
    (h : Standing (vs :: members) (edge :: edges) s) :
    s.hyperedges edge ≠ none ∧ Standing members edges (s.dropHyperedges [edge]) := by
  obtain ⟨hnew, hnodup⟩ := List.nodup_cons.mp h.nodup
  have hedge := (h.hyperedges edge (vs, default)).mpr ⟨rfl, List.mem_cons_self⟩
  refine ⟨Option.ne_none_iff_exists'.mpr ⟨_, hedge⟩, hnodup, Nat.succ.inj h.length, fun e p ↦ ?_⟩
  change (if e ∈ [edge] then none else s.hyperedges e) = some p ↔ _
  by_cases he : e = edge
  · rw [if_pos (List.mem_singleton.mpr he)]
    refine ⟨fun hn ↦ absurd hn (Option.some_ne_none p).symm, fun hmem ↦ ?_⟩
    exact absurd (he ▸ (List.of_mem_zip hmem.2).1) hnew
  · rw [if_neg (mt List.mem_singleton.mp he), h.hyperedges, List.zip_cons_cons, List.mem_cons]
    refine and_congr_right fun _ ↦ or_iff_right fun heq ↦ he ?_
    exact congrArg Prod.fst heq

/-- One more coalition is formed. -/
theorem Standing.form (h : Standing members edges s) {edge : HyperedgeIndex}
    (hnew : s.hyperedges edge = none) (vs : List VertexIndex) :
    Standing (members ++ [vs]) (edges ++ [edge]) (s.setHyperedge edge vs default) := by
  have hout : ∀ vs', (edge, vs') ∉ edges.zip members := fun vs' hmem ↦ by
    have hs := (h.hyperedges edge (vs', default)).mpr ⟨rfl, hmem⟩
    exact absurd (hs.symm.trans hnew) (Option.some_ne_none _)
  have hedge : edge ∉ edges := fun hmem ↦ by
    obtain ⟨i, hi, rfl⟩ := List.getElem_of_mem hmem
    have hi' : i < members.length := h.length ▸ hi
    refine hout members[i] (List.mem_iff_getElem?.mpr ⟨i, ?_⟩)
    exact List.getElem?_zip_eq_some.mpr
      ⟨List.getElem?_eq_getElem hi, List.getElem?_eq_getElem hi'⟩
  refine ⟨?_, ?_, fun e p ↦ ?_⟩
  · refine List.nodup_append.mpr ⟨h.nodup, List.nodup_singleton edge, ?_⟩
    intro e he e' he' heq
    rw [List.mem_singleton.mp he'] at heq
    exact hedge (heq ▸ he)
  · rw [List.length_append, List.length_append, h.length]
    rfl
  · change (if e = edge then some (vs, default) else s.hyperedges e) = some p ↔ _
    rw [List.zip_append h.length, List.mem_append, List.zip_cons_cons, List.zip_nil_left,
      List.mem_singleton]
    by_cases he : e = edge
    · subst he
      rw [if_pos rfl, Option.some.injEq]
      constructor
      · rintro rfl
        exact ⟨rfl, Or.inr rfl⟩
      · rintro ⟨hw, hmem | heq⟩
        · exact absurd hmem (hout p.1)
        · obtain ⟨-, rfl⟩ := Prod.mk.inj heq
          exact Prod.ext rfl hw.symm
    · rw [if_neg he, h.hyperedges]
      refine and_congr_right fun _ ↦ (or_iff_left fun heq ↦ he ?_).symm
      exact congrArg Prod.fst heq

end Contents

/-! ## One epoch -/

section Epoch

variable [Hypergraph G V HE E] [GrowingHypergraph G] [Inhabited HE]
variable {agents : List V} {vmap : List VertexIndex} {self : TemporalHypergraph G V HE}

/-- Between two epochs: the agents are there, with the coalitions of these members. -/
structure Between (agents : List V) (vmap : List VertexIndex) (members : List (List VertexIndex))
    (edges : List HyperedgeIndex) (value : TemporalHypergraph G V HE) : Prop where
  traced : Traced value
  peopled : Peopled agents vmap (state value.graph)
  standing : Standing members edges (state value.graph)

/-- Adding the agents to a manager without any. -/
theorem recordAgents_ends (agents : List V) (h : Traced self)
    (hh : ∀ edge, (state self.graph).hyperedges edge = none) :
    Ends (recordAgents agents) self fun vmap self' ↦ Between agents vmap [] [] self' := by
  let I : List V → List VertexIndex → TemporalHypergraph G V HE → Prop := fun front vmap self ↦
    Between front vmap [] [] self
  refine ends_mapM I (fun front vmap agent self hI ↦ ?_)
    ⟨h, ⟨.nil, List.nodup_nil⟩, standing_empty hh⟩
  refine (hI.traced.addAgent agent).imp ?_
  rintro v self' ⟨hfresh, hgraph, -, htraced⟩
  refine ⟨htraced, ?_, ?_⟩
  · rw [hgraph]
    exact hI.peopled.add hfresh agent
  · rw [hgraph]
    exact ⟨hI.standing.nodup, hI.standing.length, hI.standing.hyperedges⟩

theorem dissolveAll_ends {members : List (List VertexIndex)} {prev : List HyperedgeIndex}
    (h : Between agents vmap members prev self) :
    Ends (dissolveAll prev) self fun _ self' ↦
      Between agents vmap [] [] self' ∧ self.events.events <+: self'.events.events := by
  -- what is left of the coalitions are the last ones
  let I : List HyperedgeIndex → List HyperedgeIndex → Unit → TemporalHypergraph G V HE → Prop :=
    fun _ rest _ self' ↦ (∃ members, Between agents vmap members rest self') ∧
      self.events.events <+: self'.events.events
  refine (ends_foldlM I ?_ ⟨⟨members, h⟩, List.prefix_rfl⟩).imp ?_
  · rintro front edge rest _ self₁ - ⟨⟨members, hI⟩, hlog⟩
    cases members with
    | nil => cases hI.standing.length
    | cons vs members =>
        obtain ⟨hlive, hstanding⟩ := hI.standing.dissolve
        refine (hI.traced.dissolveCoalition hlive).imp ?_
        rintro _ self₂ ⟨hgraph, hmore, htraced⟩
        refine ⟨⟨members, htraced, hI.peopled.congr (by rw [hgraph]; rfl), ?_⟩, hlog.trans hmore⟩
        rw [hgraph]
        exact hstanding
  · rintro _ self' ⟨⟨members, hI⟩, hlog⟩
    have hnil : members = [] := List.length_eq_zero_iff.mp hI.standing.length.symm
    exact ⟨hnil ▸ hI, hlog⟩

/-- The members of the coalitions of an epoch. -/
def coalitionMembers (vmap : List VertexIndex) (s : CoalitionStructure F) :
    List (List VertexIndex) :=
  (List.range (blockCount s.assignment)).map (block vmap s.assignment)

theorem formBlocks_ends {s : CoalitionStructure F} (hcanonical : Canonical s.assignment)
    (hlen : s.assignment.length = agents.length) (h : Between agents vmap [] [] self) :
    Ends (formBlocks vmap ((List.range (blockCount s.assignment)).map
      (block (List.range s.assignment.length) s.assignment))) self fun edges self' ↦
      Between agents vmap (coalitionMembers vmap s) edges self' ∧
        self.events.events <+: self'.events.events := by
  have hvmap : vmap.length = s.assignment.length :=
    h.peopled.vertices.length_eq.symm.trans hlen.symm
  unfold formBlocks
  rw [List.foldlM_map]
  let I : List Nat → List Nat → List HyperedgeIndex → TemporalHypergraph G V HE → Prop :=
    fun front _ edges self' ↦ Between agents vmap (front.map (block vmap s.assignment)) edges
      self' ∧ self.events.events <+: self'.events.events
  refine ends_foldlM I ?_ ⟨h, List.prefix_rfl⟩
  rintro front label rest edges self₁ hl ⟨hI, hlog⟩
  have hlabel : label ∈ s.assignment :=
    hcanonical.mem_of_lt (List.mem_range.mp (hl ▸ List.mem_append_right _ List.mem_cons_self))
  have hfront : label ∉ front := fun hmem ↦ by
    have hnodup := hl ▸ List.nodup_range
    exact (List.nodup_append.mp hnodup).2.2 label hmem label List.mem_cons_self rfl
  have hmembers := forall₂_block (hvmap ▸ forall₂_range vmap) s.assignment label
  have hne : block vmap s.assignment label ≠ [] := block_ne_nil hvmap hlabel
  have hsub : (block vmap s.assignment label).Sublist vmap := block_sublist _ _ _
  rw [if_neg fun hempty ↦ block_ne_nil List.length_range hlabel (List.isEmpty_iff.mp hempty)]
  refine Ends.bind_ok (mapM_orPanic hmembers self₁) ?_
  refine (hI.traced.formCoalition default hne (hI.peopled.nodup.sublist hsub)
    (fun v hv ↦ hI.peopled.live (hsub.subset hv)) fun edge hedge ↦ ?_).bind ?_
  · -- another coalition with these members would be the block of another label
    obtain ⟨-, hmem⟩ := (hI.standing.hyperedges edge _).mp hedge
    obtain ⟨label', hlabel', hblock⟩ := List.mem_map.mp (List.of_mem_zip hmem).2
    have hsame := block_injective hI.peopled.nodup hvmap hlabel hblock.symm
    exact hfront (hsame ▸ hlabel')
  · rintro edge self₂ ⟨hfresh, hgraph, hmore, htraced⟩
    refine ends_pure ⟨⟨htraced, hI.peopled.congr (by rw [hgraph]; rfl), ?_⟩, hlog.trans hmore⟩
    rw [hgraph, List.map_append]
    exact hI.standing.form hfresh _

/-- An epoch replaces the coalitions of the one before. -/
theorem recordEpoch_ends {s : CoalitionStructure F} (hcanonical : Canonical s.assignment)
    (hlen : s.assignment.length = agents.length) {members : List (List VertexIndex)}
    {prev : List HyperedgeIndex} (h : Between agents vmap members prev self) :
    Ends (recordEpoch vmap prev s) self fun edges self' ↦
      Between agents vmap (coalitionMembers vmap s) edges self' ∧
        self.events.events <+: self'.events.events := by
  refine (dissolveAll_ends h).bind fun _ self₁ h₁ ↦ ?_
  have hblocks : (orPanic s.blocks : EStateM (Fault E) (TemporalHypergraph G V HE) _) self₁ =
      .ok ((List.range (blockCount s.assignment)).map
        (block (List.range s.assignment.length) s.assignment)) self₁ :=
    orPanic_eq_ok (assignmentBlocks_eq hcanonical) self₁
  refine Ends.bind_ok hblocks ?_
  exact (formBlocks_ends hcanonical hlen h₁.1).imp fun _ _ h₂ ↦ ⟨h₂.1, h₁.2.trans h₂.2⟩

/-- The epochs in turn: in the end the last of them stands. -/
theorem recordEpochs_ends {lineage : List (CoalitionStructure F)}
    (hlineage : ∀ s ∈ lineage, Canonical s.assignment ∧ s.assignment.length = agents.length)
    {members : List (List VertexIndex)} {prev : List HyperedgeIndex}
    (h : Between agents vmap members prev self) :
    Ends (lineage.foldlM (recordEpoch vmap) prev) self fun edges self' ↦
      (∃ members, Between agents vmap members edges self' ∧
        ∀ s, lineage.getLast? = some s → members = coalitionMembers vmap s) ∧
      self.events.events <+: self'.events.events := by
  let I : List (CoalitionStructure F) → List (CoalitionStructure F) → List HyperedgeIndex →
      TemporalHypergraph G V HE → Prop := fun front _ edges self' ↦
    (∃ members, Between agents vmap members edges self' ∧
      ∀ s, front.getLast? = some s → members = coalitionMembers vmap s) ∧
    self.events.events <+: self'.events.events
  refine ends_foldlM I ?_ ⟨⟨members, h, fun s hs ↦ by cases hs⟩, List.prefix_rfl⟩
  rintro front s rest edges self₁ hl ⟨⟨members, hI, -⟩, hlog⟩
  obtain ⟨hcanonical, hlen⟩ := hlineage s (hl ▸ List.mem_append_right _ List.mem_cons_self)
  refine (recordEpoch_ends hcanonical hlen hI).imp fun edges' self₂ h₂ ↦ ?_
  refine ⟨⟨_, h₂.1, fun t ht ↦ ?_⟩, hlog.trans h₂.2⟩
  rw [List.getLast?_concat, Option.some.injEq] at ht
  rw [ht]

end Epoch

/-! ## What can be read of an epoch -/

/-- Reading the members of the hyperedges shows the blocks of a structure, each as one
hyperedge, and no other hyperedge. -/
def Shows (vmap : List VertexIndex) (s : CoalitionStructure F)
    (read : HyperedgeIndex → List VertexIndex → Prop) : Prop :=
  ∃ edges : List HyperedgeIndex, edges.Nodup ∧ edges.length = blockCount s.assignment ∧
    ∀ h members, read h members ↔ ∃ label, edges[label]? = some h ∧
      members = block vmap s.assignment label

section Shows

variable [Inhabited HE] {vmap : List VertexIndex} {s : CoalitionStructure F}
variable {edges : List HyperedgeIndex} {contents : GraphState V HE}

theorem Standing.shows (h : Standing (coalitionMembers vmap s) edges contents) :
    Shows vmap s fun edge members ↦ (contents.hyperedges edge).map Prod.fst = some members := by
  have hcount : (coalitionMembers vmap s).length = blockCount s.assignment := by
    rw [coalitionMembers, List.length_map, List.length_range]
  refine ⟨edges, h.nodup, h.length.trans hcount, fun edge members ↦ ?_⟩
  have hread : (contents.hyperedges edge).map Prod.fst = some members ↔
      (edge, members) ∈ edges.zip (coalitionMembers vmap s) := by
    rw [Option.map_eq_some_iff]
    constructor
    · rintro ⟨p, hp, rfl⟩
      exact ((h.hyperedges edge p).mp hp).2
    · exact fun hmem ↦ ⟨(members, default), (h.hyperedges edge _).mpr ⟨rfl, hmem⟩, rfl⟩
  refine (hread.trans List.mem_iff_getElem?).trans ?_
  refine exists_congr fun label ↦ ?_
  rw [List.getElem?_zip_eq_some]
  refine and_congr_right fun hedge ↦ ?_
  have hlt : label < blockCount s.assignment :=
    hcount ▸ h.length ▸ (List.getElem?_eq_some_iff.mp hedge).1
  rw [coalitionMembers, List.getElem?_map, List.getElem?_range hlt, Option.map_some,
    Option.some.injEq, eq_comm]

/-- Where the blocks of all agents are shown, each agent belongs to one hyperedge. -/
theorem Shows.existsUnique {read : HyperedgeIndex → List VertexIndex → Prop}
    (h : Shows vmap s read) (hnodup : vmap.Nodup) (hlen : vmap.length = s.assignment.length)
    {v : VertexIndex} (hv : v ∈ vmap) : ∃! edge, ∃ members, read edge members ∧ v ∈ members := by
  obtain ⟨edges, -, hcount, hread⟩ := h
  obtain ⟨i, hi, rfl⟩ := List.getElem_of_mem hv
  have hi' : i < s.assignment.length := hlen ▸ hi
  -- the agent is in the block of its label, and in no other
  have hmem : ∀ label, vmap[i] ∈ block vmap s.assignment label ↔ label = s.assignment[i] := by
    intro label
    rw [mem_block]
    constructor
    · rintro ⟨j, hj, hlabel⟩
      have hij : i = j := (List.getElem?_inj hi hnodup).mp
        ((List.getElem?_eq_getElem hi).trans hj.symm)
      subst hij
      exact (Option.some.inj ((List.getElem?_eq_getElem hi').symm.trans hlabel)).symm
    · rintro rfl
      exact ⟨i, List.getElem?_eq_getElem hi, List.getElem?_eq_getElem hi'⟩
  have hlabel : s.assignment[i] < edges.length :=
    hcount ▸ lt_blockCount (List.getElem_mem hi')
  refine ⟨edges[s.assignment[i]], ⟨_, (hread _ _).mpr ⟨_, List.getElem?_eq_getElem hlabel, rfl⟩,
    (hmem _).mpr rfl⟩, ?_⟩
  rintro edge ⟨members, hmembers, hin⟩
  obtain ⟨label, hedge, rfl⟩ := (hread _ _).mp hmembers
  cases (hmem label).mp hin
  exact (Option.some.inj ((List.getElem?_eq_getElem hlabel).symm.trans hedge)).symm

theorem Shows.imp {read read' : HyperedgeIndex → List VertexIndex → Prop} (h : Shows vmap s read)
    (heq : ∀ edge members, read' edge members ↔ read edge members) : Shows vmap s read' := by
  obtain ⟨edges, hnodup, hcount, hread⟩ := h
  exact ⟨edges, hnodup, hcount, fun edge members ↦ (heq edge members).trans (hread edge members)⟩

end Shows

section History

variable [Hypergraph G V HE E] [GrowingHypergraph G] [Inhabited HE]
variable {agents : List V} {vmap : List VertexIndex} {s : CoalitionStructure F}
variable {edges : List HyperedgeIndex} {mid fin : TemporalHypergraph G V HE}

/-- The live graph shows the epoch that stands. -/
theorem Between.shows (h : Between agents vmap (coalitionMembers vmap s) edges mid) :
    Shows vmap s fun edge members ↦ getHyperedgeVertices edge mid.graph = .ok members :=
  h.standing.shows.imp fun _ _ ↦ membersOf_eq_some.symm

/-- At the last event of an epoch the log shows this epoch, whatever comes after it. -/
theorem Between.shows_at (h : Between agents vmap (coalitionMembers vmap s) edges mid)
    (hlog : mid.events.events <+: fin.events.events) (hfin : Coherent fin)
    {last : TemporalEvent V HE} (hlast : mid.events.events.getLast? = some last) :
    (Shows vmap s fun edge members ↦
      hyperedgeVerticesAt fin.events edge last.timestamp = some members) ∧
    (∀ edge, hyperedgeExistsAt fin.events edge last.timestamp =
      (hyperedgeVerticesAt fin.events edge last.timestamp).isSome) ∧
    countHyperedgesAt fin.events last.timestamp = blockCount s.assignment := by
  obtain ⟨es, hes⟩ := List.getLast?_eq_some_iff.mp hlast
  obtain ⟨fs, hfs⟩ := hlog
  have hsplit : SplitsAt fin.events last.timestamp mid.events.events := by
    rw [hes]
    exact hfin.splitsAt (by rw [← hfs, hes, List.append_assoc]; rfl)
  have hagree := h.traced.agrees
  refine ⟨h.standing.shows.imp fun edge members ↦ ?_, fun edge ↦ ?_, ?_⟩
  · rw [hsplit.hyperedgeVerticesAt_eq, hagree.hyperedgeVertices_eq]
  · rw [hsplit.hyperedgeVerticesAt_eq, hagree.hyperedgeVertices_eq, hsplit.hyperedgeExistsAt_eq,
      hagree.hyperedgeAlive_eq, Option.isSome_map]
  · have hcard : edges.toFinset.card = blockCount s.assignment := by
      rw [List.toFinset_card_of_nodup h.standing.nodup, h.standing.length, coalitionMembers,
        List.length_map, List.length_range]
    rw [← hcard]
    refine hsplit.countHyperedgesAt_eq fun edge ↦ ?_
    rw [List.mem_toFinset, hagree.hyperedgeAlive_eq, Option.isSome_iff_exists]
    constructor
    · intro hmem
      obtain ⟨i, hi, rfl⟩ := List.getElem_of_mem hmem
      have hi' : i < (coalitionMembers vmap s).length := h.standing.length ▸ hi
      refine ⟨((coalitionMembers vmap s)[i], default), (h.standing.hyperedges _ _).mpr ⟨rfl, ?_⟩⟩
      exact List.mem_iff_getElem?.mpr ⟨i, List.getElem?_zip_eq_some.mpr
        ⟨List.getElem?_eq_getElem hi, List.getElem?_eq_getElem hi'⟩⟩
    · rintro ⟨p, hp⟩
      exact (List.of_mem_zip ((h.standing.hyperedges edge p).mp hp).2).1

end History

/-! ## The whole lineage -/

section Trajectory

variable [Hypergraph G V HE E] [GrowingHypergraph G] [Inhabited HE]

/-- **The trajectory is a faithful history.**  Recording a lineage of canonical assignments
of all agents in a fresh manager succeeds, and gives each agent a vertex of its own.  Unless
the log outgrows memory, the live coalitions are the blocks of the last epoch, each agent is
in one of them, and the queries at the last event recorded with an epoch show the blocks of
that epoch. -/
theorem record_trajectory_faithful (tap : Option (Channel (TemporalEvent V HE)))
    (agents : List V) (lineage : List (CoalitionStructure F)) (hne : lineage ≠ [])
    (hlineage : ∀ s ∈ lineage, Canonical s.assignment ∧ s.assignment.length = agents.length) :
    ∃ (vmap : List VertexIndex) (fin : TemporalHypergraph G V HE),
      recordTrajectory agents lineage (start tap) = .ok () fin ∧
      vmap.Nodup ∧
      List.Forall₂ (fun agent v ↦ getVertexWeight v fin.graph = .ok agent) agents vmap ∧
      (Shows vmap (lineage.getLast hne) fun edge members ↦
        getHyperedgeVertices edge fin.graph = .ok members) ∧
      (∀ v ∈ vmap, ∃! edge, ∃ members,
        getHyperedgeVertices edge fin.graph = .ok members ∧ v ∈ members) ∧
      (fin.events.len ≤ vecMax → ∀ i s, lineage[i]? = some s →
        ∃ mid : TemporalHypergraph G V HE,
          recordTrajectory agents (lineage.take (i + 1)) (start tap) = .ok () mid ∧
          mid.events.events <+: fin.events.events ∧
          ∀ last, mid.events.events.getLast? = some last →
            (Shows vmap s fun edge members ↦
              hyperedgeVerticesAt fin.events edge last.timestamp = some members) ∧
            (∀ edge, hyperedgeExistsAt fin.events edge last.timestamp =
              (hyperedgeVerticesAt fin.events edge last.timestamp).isSome) ∧
            countHyperedgesAt fin.events last.timestamp = blockCount s.assignment) := by
  have hempty : ∀ edge, (state (start tap : TemporalHypergraph G V HE).graph).hyperedges edge =
      none := by
    have hgraph : (start tap : TemporalHypergraph G V HE).graph = Hypergraph.new := by
      cases tap <;> rfl
    intro edge
    rw [hgraph, LawfulHypergraph.state_new]
    rfl
  obtain ⟨vmap, self₀, hagents, h₀⟩ := recordAgents_ends agents (traced_start tap) hempty
  obtain ⟨edges, fin, hepochs, ⟨members, hbetween, hlast⟩, -⟩ := recordEpochs_ends hlineage h₀
  have hmembers := hlast _ (List.getLast?_eq_some_getLast hne)
  subst hmembers
  have hlen : vmap.length = (lineage.getLast hne).assignment.length :=
    hbetween.peopled.vertices.length_eq.symm.trans
      (hlineage _ (List.getLast_mem hne)).2.symm
  refine ⟨vmap, fin, ?_, hbetween.peopled.nodup, ?_, hbetween.shows, fun v hv ↦ ?_,
    fun hroom i s hs ↦ ?_⟩
  · exact bind_eq_ok.mpr ⟨vmap, self₀, hagents, bind_eq_ok.mpr ⟨edges, fin, hepochs, rfl⟩⟩
  · exact hbetween.peopled.vertices.imp fun _ _ ↦ state_vertices_eq_some.mp
  · exact hbetween.shows.existsUnique hbetween.peopled.nodup hlen hv
  · -- the run goes through the end of the epoch
    have hfront : ∀ t ∈ lineage.take (i + 1), Canonical t.assignment ∧
        t.assignment.length = agents.length := fun t ht ↦ hlineage t (List.mem_of_mem_take ht)
    have hback : ∀ t ∈ lineage.drop (i + 1), Canonical t.assignment ∧
        t.assignment.length = agents.length := fun t ht ↦ hlineage t (List.mem_of_mem_drop ht)
    have hcurrent : (lineage.take (i + 1)).getLast? = some s := by
      rw [List.take_add_one, hs]
      exact List.getLast?_concat
    obtain ⟨edges₁, mid, hrun₁, ⟨members₁, hmid, hlast₁⟩, -⟩ := recordEpochs_ends hfront h₀
    obtain ⟨edges₂, fin', hrun₂, -, hlog⟩ := recordEpochs_ends hback hmid
    have hsame : lineage.foldlM (recordEpoch vmap) [] self₀ =
        (.ok edges₂ fin' : EStateM.Result (Fault E) _ _) := by
      rw [← List.take_append_drop (i + 1) lineage, List.foldlM_append]
      exact bind_eq_ok.mpr ⟨edges₁, mid, hrun₁, hrun₂⟩
    rw [hepochs] at hsame
    cases hsame
    rw [hlast₁ s hcurrent] at hmid
    refine ⟨mid, ?_, hlog, fun last ↦ hmid.shows_at hlog (hbetween.traced.coherent hroom)⟩
    exact bind_eq_ok.mpr ⟨vmap, self₀, hagents, bind_eq_ok.mpr ⟨edges₁, mid, hrun₁, rfl⟩⟩

/-- Two agents, first apart, then together. -/
theorem two_agents_meet :
    ∃ (vmap : List VertexIndex) (fin : TemporalHypergraph (MapGraph Nat Nat) Nat Nat),
      recordTrajectory [7, 8] [⟨[0, 1], 1⟩, (⟨[0, 0], 2⟩ : CoalitionStructure Nat)] (start none) =
        .ok () fin ∧
      Shows vmap (⟨[0, 0], 2⟩ : CoalitionStructure Nat) fun edge members ↦
        getHyperedgeVertices edge fin.graph = .ok members := by
  have hcanonical : ∀ s ∈ [⟨[0, 1], 1⟩, (⟨[0, 0], 2⟩ : CoalitionStructure Nat)],
      Canonical s.assignment ∧ s.assignment.length = [7, 8].length := by
    have hapart : relabel [0, 1] = [0, 1] := by decide
    have htogether : relabel [0, 0] = [0, 0] := by decide
    rintro s hs
    rcases List.mem_cons.mp hs with rfl | hs
    · exact ⟨hapart ▸ canonical_relabel [0, 1], rfl⟩
    · rw [List.mem_singleton.mp hs]
      exact ⟨htogether ▸ canonical_relabel [0, 0], rfl⟩
  obtain ⟨vmap, fin, hrun, -, -, hlive, -⟩ :=
    record_trajectory_faithful (G := MapGraph Nat Nat) none [7, 8] _ (List.cons_ne_nil _ _)
      hcanonical
  exact ⟨vmap, fin, hrun, hlive⟩

end Trajectory

end Koalisi.Algorithms
