import Mathlib.Data.List.AList
import Koalisi.Topology.Hypergraph

/-!
# A graph kept in two finite maps

`MapGraph` is a graph backend one can run: finite maps of vertices and hyperedges,
and two counters from which fresh indices come.  An operation on an object that is
not there fails before it changes anything.  It is lawful, so what the topology
layer assumes of its backend is satisfiable, and concrete runs can be computed
with it.
-/

namespace Koalisi.Topology

/-- A graph in two finite maps. -/
structure MapGraph (V HE : Type) where
  vertices : AList fun _ : VertexIndex ↦ V
  hyperedges : AList fun _ : HyperedgeIndex ↦ List VertexIndex × HE
  nextVertex : VertexIndex
  nextHyperedge : HyperedgeIndex

/-- Why an operation was refused. -/
inductive MapGraphError where
  | vertexNotFound (index : VertexIndex)
  | hyperedgeNotFound (index : HyperedgeIndex)
  | invalidJoin
deriving DecidableEq, Repr

namespace MapGraph

variable {V HE T : Type}

/-- The first missing object of two lists, or what to report when there is none. -/
def missing (g : MapGraph V HE) (vs : List VertexIndex) (hs : List HyperedgeIndex)
    (extra : Option MapGraphError) : Option MapGraphError :=
  match vs.find? fun v ↦ (g.vertices.lookup v).isNone with
  | some v => some (.vertexNotFound v)
  | none => match hs.find? fun h ↦ (g.hyperedges.lookup h).isNone with
    | some h => some (.hyperedgeNotFound h)
    | none => extra

/-- Run an operation unless there is something to report. -/
def guarded (error : MapGraph V HE → Option MapGraphError)
    (f : MapGraph V HE → T × MapGraph V HE) : EStateM MapGraphError (MapGraph V HE) T := fun g ↦
  match error g with
  | some e => .error e g
  | none => .ok (f g).1 (f g).2

theorem guarded_error {error : MapGraph V HE → Option MapGraphError}
    {f : MapGraph V HE → T × MapGraph V HE} {g g' : MapGraph V HE} {e : MapGraphError}
    (h : guarded error f g = .error e g') : g' = g := by
  unfold guarded at h
  split at h <;> cases h
  rfl

theorem guarded_ok {error : MapGraph V HE → Option MapGraphError}
    {f : MapGraph V HE → T × MapGraph V HE} {g g' : MapGraph V HE} {a : T}
    (h : guarded error f g = .ok a g') : error g = none ∧ f g = (a, g') := by
  unfold guarded at h
  split at h
  · cases h
  · rename_i hn
    cases h
    exact ⟨hn, rfl⟩

/-- Nothing missing among the hyperedges of a list, and nothing else to report. -/
theorem missing_eq_none {g : MapGraph V HE} {vs : List VertexIndex} {hs : List HyperedgeIndex}
    {extra : Option MapGraphError} (h : g.missing vs hs extra = none) :
    extra = none ∧ ∀ he ∈ hs, (g.hyperedges.lookup he).isSome := by
  unfold missing at h
  split at h
  · cases h
  · split at h
    · cases h
    · rename_i hf
      refine ⟨h, fun he hm ↦ ?_⟩
      have hn := List.find?_eq_none.mp hf he hm
      rwa [Option.isNone_iff_eq_none, ← ne_eq, Option.ne_none_iff_isSome] at hn

/-- Change what is at a hyperedge, if it is there. -/
def adjust (g : MapGraph V HE) (h : HyperedgeIndex)
    (f : List VertexIndex × HE → List VertexIndex × HE) : MapGraph V HE :=
  match g.hyperedges.lookup h with
  | some p => { g with hyperedges := g.hyperedges.insert h (f p) }
  | none => g

/-- Replace the members of a hyperedge. -/
def setMembers (g : MapGraph V HE) (h : HyperedgeIndex) (vs : List VertexIndex) :
    MapGraph V HE :=
  g.adjust h fun p ↦ (vs, p.2)

/-- Replace the weight of a hyperedge. -/
def setWeight (g : MapGraph V HE) (h : HyperedgeIndex) (w : HE) : MapGraph V HE :=
  g.adjust h fun p ↦ (p.1, w)

/-- Remove the hyperedges of a list. -/
def dropHyperedges (g : MapGraph V HE) (hs : List HyperedgeIndex) : MapGraph V HE :=
  { g with hyperedges := hs.foldl (fun l h ↦ l.erase h) g.hyperedges }

/-- The members of a hyperedge; none if it is not there. -/
def members (g : MapGraph V HE) (h : HyperedgeIndex) : List VertexIndex :=
  match g.hyperedges.lookup h with
  | some p => p.1
  | none => []

instance : Hypergraph (MapGraph V HE) V HE MapGraphError where
  new := ⟨∅, ∅, 0, 0⟩
  addVertex w g := (g.nextVertex, { g with
    vertices := g.vertices.insert g.nextVertex w
    nextVertex := g.nextVertex + 1 })
  removeVertex v := guarded (·.missing [v] [] none) fun g ↦
    ((), { g with vertices := g.vertices.erase v })
  updateVertexWeight v w := guarded (·.missing [v] [] none) fun g ↦
    ((), { g with vertices := g.vertices.insert v w })
  getVertexWeight v g := match g.vertices.lookup v with
    | some w => .ok w
    | none => .error (.vertexNotFound v)
  addHyperedge vs w := guarded (·.missing vs [] none) fun g ↦
    (g.nextHyperedge, { g with
      hyperedges := g.hyperedges.insert g.nextHyperedge (vs, w)
      nextHyperedge := g.nextHyperedge + 1 })
  removeHyperedge h := guarded (·.missing [] [h] none) fun g ↦ ((), g.dropHyperedges [h])
  updateHyperedgeWeight h w := guarded (·.missing [] [h] none) fun g ↦ ((), g.setWeight h w)
  updateHyperedgeVertices h vs := guarded (·.missing vs [h] none) fun g ↦ ((), g.setMembers h vs)
  reverseHyperedge h := guarded (·.missing [] [h] none) fun g ↦
    ((), g.setMembers h (g.members h).reverse)
  joinHyperedges hs := guarded
    (·.missing [] hs (if 1 < hs.length then none else some .invalidJoin)) fun g ↦
    let t := hs.headD 0
    (t, (g.dropHyperedges (hs.tail.filter (· ≠ t))).setMembers t (hs.flatMap g.members))
  contractHyperedgeVertices h vs v := guarded (·.missing (v :: vs) [h] none) fun g ↦
    let nvs := (g.members h).map fun m ↦ if m ∈ vs then v else m
    (nvs, g.setMembers h nvs)
  getHyperedgeWeight h g := match g.hyperedges.lookup h with
    | some p => .ok p.2
    | none => .error (.hyperedgeNotFound h)
  getHyperedgeVertices h g := match g.hyperedges.lookup h with
    | some p => .ok p.1
    | none => .error (.hyperedgeNotFound h)
  countVertices g := g.vertices.keys.length
  countHyperedges g := g.hyperedges.keys.length
  clearHyperedges g := { g with hyperedges := ∅ }
  clear g := { g with vertices := ∅, hyperedges := ∅ }

/-! ## Contents -/

open Koalisi.Topology.Hypergraph

theorem getHyperedgeVertices_ok {g : MapGraph V HE} {h : HyperedgeIndex} :
    (∃ vs, getHyperedgeVertices h g = .ok vs) ↔ (g.hyperedges.lookup h).isSome := by
  change (∃ vs, (match g.hyperedges.lookup h with
    | some p => Except.ok p.1
    | none => .error (MapGraphError.hyperedgeNotFound h)) = .ok vs) ↔ _
  cases g.hyperedges.lookup h <;> simp

theorem getHyperedgeVertices_eq {g : MapGraph V HE} {h : HyperedgeIndex}
    {p : List VertexIndex × HE} (hp : g.hyperedges.lookup h = some p) :
    getHyperedgeVertices h g = .ok p.1 := by
  change (match g.hyperedges.lookup h with
    | some p => Except.ok p.1
    | none => .error (MapGraphError.hyperedgeNotFound h)) = .ok p.1
  rw [hp]

theorem getHyperedgeWeight_ok {g : MapGraph V HE} {h : HyperedgeIndex} :
    (∃ w, getHyperedgeWeight h g = .ok w) ↔ (g.hyperedges.lookup h).isSome := by
  change (∃ vs, (match g.hyperedges.lookup h with
    | some p => Except.ok p.2
    | none => .error (MapGraphError.hyperedgeNotFound h)) = .ok vs) ↔ _
  cases g.hyperedges.lookup h <;> simp

/-- The contents of a graph are its two maps. -/
theorem state_eq (g : MapGraph V HE) :
    state g = ⟨fun v ↦ g.vertices.lookup v, fun h ↦ g.hyperedges.lookup h⟩ := by
  refine GraphState.ext (funext fun v ↦ ?_) (funext fun h ↦ ?_)
  · simp only [state, getVertexWeight]
    cases g.vertices.lookup v <;> rfl
  · simp only [state, getHyperedgeVertices, getHyperedgeWeight]
    cases g.hyperedges.lookup h <;> rfl

theorem lookup_insert_eq {B : Type} (l : AList fun _ : Nat ↦ B) (a a' : Nat) (b : B) :
    (l.insert a b).lookup a' = if a' = a then some b else l.lookup a' := by
  by_cases h : a' = a
  · subst h
    rw [AList.lookup_insert, if_pos rfl]
  · rw [AList.lookup_insert_ne h, if_neg h]

theorem lookup_erase_eq {B : Type} (l : AList fun _ : Nat ↦ B) (a a' : Nat) :
    (l.erase a).lookup a' = if a' = a then none else l.lookup a' := by
  by_cases h : a' = a
  · subst h
    rw [AList.lookup_erase, if_pos rfl]
  · rw [AList.lookup_erase_ne h, if_neg h]

theorem lookup_eraseAll {B : Type} (as : List Nat) (l : AList fun _ : Nat ↦ B) (a' : Nat) :
    (as.foldl (fun l a ↦ l.erase a) l).lookup a' = if a' ∈ as then none else l.lookup a' := by
  induction as generalizing l with
  | nil => simp
  | cons a as ih =>
      rw [List.foldl_cons, ih, lookup_erase_eq]
      by_cases h : a' ∈ as
      · rw [if_pos h, if_pos (List.mem_cons_of_mem a h)]
      · rw [if_neg h]
        by_cases h' : a' = a <;> simp [h, h']

theorem state_dropHyperedges (g : MapGraph V HE) (hs : List HyperedgeIndex) :
    state (g.dropHyperedges hs) = (state g).dropHyperedges hs := by
  rw [state_eq, state_eq]
  exact GraphState.ext rfl (funext fun h ↦ lookup_eraseAll hs g.hyperedges h)

theorem state_adjust (g : MapGraph V HE) (h : HyperedgeIndex)
    (f : List VertexIndex × HE → List VertexIndex × HE) :
    state (g.adjust h f) = { state g with hyperedges := fun h' ↦
      if h' = h then ((state g).hyperedges h').map f else (state g).hyperedges h' } := by
  unfold adjust
  cases hp : g.hyperedges.lookup h with
  | some p =>
      rw [state_eq, state_eq]
      refine GraphState.ext rfl (funext fun h' ↦ ?_)
      change (g.hyperedges.insert h (f p)).lookup h' = if h' = h then
        (g.hyperedges.lookup h').map f else g.hyperedges.lookup h'
      rw [lookup_insert_eq]
      by_cases hh : h' = h
      · subst hh
        rw [if_pos rfl, if_pos rfl, hp]
        rfl
      · rw [if_neg hh, if_neg hh]
  | none =>
      rw [state_eq]
      refine GraphState.ext rfl (funext fun h' ↦ ?_)
      change g.hyperedges.lookup h' = if h' = h then
        (g.hyperedges.lookup h').map f else g.hyperedges.lookup h'
      by_cases hh : h' = h
      · subst hh
        rw [if_pos rfl, hp]
        rfl
      · rw [if_neg hh]

theorem state_setMembers (g : MapGraph V HE) (h : HyperedgeIndex) (vs : List VertexIndex) :
    state (g.setMembers h vs) = (state g).setMembers h vs :=
  state_adjust g h _

theorem state_setWeight (g : MapGraph V HE) (h : HyperedgeIndex) (w : HE) :
    state (g.setWeight h w) = (state g).setWeight h w :=
  state_adjust g h _

/-- A hyperedge that is there is still readable after its members were replaced. -/
theorem readable_setMembers {g : MapGraph V HE} {h : HyperedgeIndex} {vs : List VertexIndex}
    (hlive : (state g).hyperedges h ≠ none) :
    ∃ vs', getHyperedgeVertices h (g.setMembers h vs) = .ok vs' := by
  rw [getHyperedgeVertices_ok, ← Option.ne_none_iff_isSome]
  have hs := congrFun (congrArg GraphState.hyperedges (state_setMembers g h vs)) h
  rw [state_eq (g.setMembers h vs)] at hs
  change (g.setMembers h vs).hyperedges.lookup h = if h = h then
    ((state g).hyperedges h).map _ else _ at hs
  rw [hs, if_pos rfl]
  exact fun hn ↦ hlive (Option.map_eq_none_iff.mp hn)

/-- Dropping other hyperedges keeps a hyperedge. -/
theorem live_dropHyperedges {g : MapGraph V HE} {h : HyperedgeIndex} {hs : List HyperedgeIndex}
    (hlive : (g.hyperedges.lookup h).isSome) :
    (state (g.dropHyperedges (hs.filter (· ≠ h)))).hyperedges h ≠ none := by
  rw [state_dropHyperedges, state_eq]
  change (if h ∈ hs.filter (· ≠ h) then none else g.hyperedges.lookup h) ≠ none
  rw [if_neg fun hm ↦ by simpa using List.of_mem_filter hm]
  exact Option.ne_none_iff_isSome.mpr hlive

/-- The keys of a finite map, as the finite set its count is the size of. -/
theorem card_keys {B : Type} (l : AList fun _ : Nat ↦ B) :
    (∀ a, a ∈ l.keys.toFinset ↔ l.lookup a ≠ none) ∧ l.keys.length = l.keys.toFinset.card := by
  refine ⟨fun a ↦ ?_, (List.toFinset_card_of_nodup l.keys_nodup).symm⟩
  rw [List.mem_toFinset, ← AList.mem_keys, ← AList.lookup_isSome, Option.isSome_iff_ne_none]

instance : LawfulHypergraph (MapGraph V HE) where
  removeVertex_error _ _ _ _ := guarded_error
  updateVertexWeight_error _ _ _ _ _ := guarded_error
  addHyperedge_error _ _ _ _ _ := guarded_error
  removeHyperedge_error _ _ _ _ := guarded_error
  updateHyperedgeWeight_error _ _ _ _ _ := guarded_error
  updateHyperedgeVertices_error _ _ _ _ _ := guarded_error
  reverseHyperedge_error _ _ _ _ := guarded_error
  joinHyperedges_error _ _ _ _ := guarded_error
  contractHyperedgeVertices_error _ _ _ _ _ _ := guarded_error
  reverseHyperedge_readable h g g' hok := by
    obtain ⟨hm, hf⟩ := guarded_ok hok
    cases hf
    have hlive := (missing_eq_none hm).2 h (List.mem_singleton.mpr rfl)
    exact readable_setMembers (by rw [state_eq]; exact Option.ne_none_iff_isSome.mpr hlive)
  joinHyperedges_readable hs g t g' hok := by
    obtain ⟨hm, hf⟩ := guarded_ok hok
    obtain ⟨hlen, hlive⟩ := missing_eq_none hm
    have hlt : 1 < hs.length := by
      by_contra hn
      rw [if_neg hn] at hlen
      cases hlen
    cases hs with
    | nil => simp at hlt
    | cons t' rest =>
        cases hf
        exact ⟨hlt, readable_setMembers (live_dropHyperedges (hlive t' List.mem_cons_self))⟩
  state_new := by rw [state_eq]; rfl
  readable_iff h g := by rw [getHyperedgeVertices_ok, getHyperedgeWeight_ok]
  countVertices_eq g := ⟨_, by rw [state_eq]; exact (card_keys g.vertices).1,
    (card_keys g.vertices).2⟩
  countHyperedges_eq g := ⟨_, by rw [state_eq]; exact (card_keys g.hyperedges).1,
    (card_keys g.hyperedges).2⟩
  addVertex_ok w g g' v h := by
    cases h
    rw [state_eq, state_eq]
    exact GraphState.ext (funext fun v' ↦ lookup_insert_eq g.vertices _ v' w) rfl
  removeVertex_ok v g g' hok := by
    cases (guarded_ok hok).2
    rw [state_eq, state_eq]
    exact GraphState.ext (funext fun v' ↦ lookup_erase_eq g.vertices _ v') rfl
  updateVertexWeight_ok v w g g' hok := by
    cases (guarded_ok hok).2
    rw [state_eq, state_eq]
    exact GraphState.ext (funext fun v' ↦ lookup_insert_eq g.vertices _ v' w) rfl
  addHyperedge_ok vs w g g' h hok := by
    cases (guarded_ok hok).2
    rw [state_eq, state_eq]
    exact GraphState.ext rfl (funext fun h' ↦ lookup_insert_eq g.hyperedges _ h' (vs, w))
  removeHyperedge_ok h g g' hok := by
    cases (guarded_ok hok).2
    exact state_dropHyperedges g [h]
  updateHyperedgeWeight_ok h w g g' hok := by
    cases (guarded_ok hok).2
    exact state_setWeight g h w
  updateHyperedgeVertices_ok h vs g g' hok := by
    cases (guarded_ok hok).2
    exact state_setMembers g h vs
  reverseHyperedge_ok h g g' hok := by
    cases (guarded_ok hok).2
    exact ⟨_, state_setMembers g h _⟩
  joinHyperedges_ok hs g g' t hok := by
    obtain ⟨hm, hf⟩ := guarded_ok hok
    obtain ⟨hlen, -⟩ := missing_eq_none hm
    cases hs with
    | nil => cases hlen
    | cons t' rest =>
        cases hf
        refine ⟨rfl, (t' :: rest).flatMap g.members, ?_⟩
        rw [← state_dropHyperedges]
        exact state_setMembers _ t' _
  contractHyperedgeVertices_ok h vs v g g' nvs hok := by
    cases (guarded_ok hok).2
    exact state_setMembers g h _
  state_clearHyperedges g := by rw [state_eq, state_eq]; rfl
  state_clear g := by rw [state_eq]; rfl

instance : GuardedHypergraph (MapGraph V HE) where
  joinHyperedges_live hs g g' t hok h hm := by
    rw [state_eq]
    exact Option.ne_none_iff_isSome.mpr ((missing_eq_none (guarded_ok hok).1).2 h hm)

/-! ## Fresh indices -/

theorem guarded_of_none {error : MapGraph V HE → Option MapGraphError}
    {f : MapGraph V HE → T × MapGraph V HE} {g : MapGraph V HE} (h : error g = none) :
    guarded error f g = .ok (f g).1 (f g).2 := by
  unfold guarded
  rw [h]

/-- Nothing is missing when all vertices and hyperedges are there. -/
theorem missing_of_live {g : MapGraph V HE} {vs : List VertexIndex} {hs : List HyperedgeIndex}
    (hv : ∀ v ∈ vs, g.vertices.lookup v ≠ none) (hh : ∀ h ∈ hs, g.hyperedges.lookup h ≠ none) :
    g.missing vs hs none = none := by
  unfold missing
  rw [List.find?_eq_none.mpr fun v hm hn ↦ hv v hm (Option.isNone_iff_eq_none.mp hn),
    List.find?_eq_none.mpr fun h hm hn ↦ hh h hm (Option.isNone_iff_eq_none.mp hn)]

/-- The counters are ahead of all indices. -/
def Counted (g : MapGraph V HE) : Prop :=
  (∀ v, g.vertices.lookup v ≠ none → v < g.nextVertex) ∧
    ∀ h, g.hyperedges.lookup h ≠ none → h < g.nextHyperedge

instance : GrowingHypergraph (MapGraph V HE) where
  Tidy := Counted
  tidy_new := ⟨fun _ h ↦ absurd rfl h, fun _ h ↦ absurd rfl h⟩
  tidy_addVertex w g g' v hg h := by
    cases h
    refine ⟨fun v hv ↦ ?_, hg.2⟩
    change (g.vertices.insert g.nextVertex w).lookup v ≠ none at hv
    change v < g.nextVertex + 1
    rw [lookup_insert_eq] at hv
    split at hv
    · rename_i heq
      exact heq ▸ Nat.lt_succ_self _
    · exact Nat.lt_succ_of_lt (hg.1 v hv)
  tidy_addHyperedge vs w g g' h hg hok := by
    cases (guarded_ok hok).2
    refine ⟨hg.1, fun h hh ↦ ?_⟩
    change (g.hyperedges.insert g.nextHyperedge (vs, w)).lookup h ≠ none at hh
    change h < g.nextHyperedge + 1
    rw [lookup_insert_eq] at hh
    split at hh
    · rename_i heq
      exact heq ▸ Nat.lt_succ_self _
    · exact Nat.lt_succ_of_lt (hg.2 h hh)
  tidy_removeHyperedge h g g' hg hok := by
    cases (guarded_ok hok).2
    refine ⟨hg.1, fun h' hh ↦ hg.2 h' fun hn ↦ hh ?_⟩
    change ([h].foldl (fun l h ↦ l.erase h) g.hyperedges).lookup h' = none
    rw [lookup_eraseAll, hn, ite_self]
  addVertex_fresh w g g' v hg h := by
    cases h
    rw [state_eq]
    exact of_not_not fun hv ↦ Nat.lt_irrefl _ (hg.1 _ hv)
  addHyperedge_fresh vs w g g' h hg hok := by
    cases (guarded_ok hok).2
    rw [state_eq]
    exact of_not_not fun hh ↦ Nat.lt_irrefl _ (hg.2 _ hh)
  addHyperedge_succeeds vs w g hg hne hnodup hlive _ := by
    rw [state_eq] at hlive
    exact ⟨_, _, guarded_of_none (missing_of_live hlive fun _ hm ↦ absurd hm List.not_mem_nil)⟩
  removeHyperedge_succeeds h g hg hlive := by
    rw [state_eq] at hlive
    refine ⟨_, guarded_of_none (missing_of_live (fun _ hm ↦ absurd hm List.not_mem_nil) ?_)⟩
    rintro _ hm
    rw [List.mem_singleton.mp hm]
    exact hlive

end MapGraph

end Koalisi.Topology
