import Mathlib.Algebra.GroupWithZero.Nat
import Mathlib.Data.List.Nodup

/-!
# Labellings in canonical form

A list of labels divides its positions into blocks, one for each label.  Two lists with
different labels may make the same blocks; the canonical one among them numbers the blocks
in the order in which they first occur.  `relabel` finds it with a table of the labels
seen so far.
-/

namespace Koalisi.Lib.Labelling

variable {α : Type*} [DecidableEq α]

/-- The labels are numbers, and each one first occurs behind all smaller ones. -/
def Canonical (labels : List Nat) : Prop :=
  ∀ before label after, labels = before ++ label :: after → ∀ smaller < label, smaller ∈ before

/-- Relabel with the numbers given so far. -/
def relabelFrom (remap : List (α × Nat)) (next : Nat) : List α → List Nat
  | [] => []
  | label :: labels =>
      match remap.lookup label with
      | some id => id :: relabelFrom remap next labels
      | none => next :: relabelFrom ((label, next) :: remap) (next + 1) labels

/-- Number the labels in the order of their first occurrence. -/
def relabel (labels : List α) : List Nat := relabelFrom [] 0 labels

theorem length_relabelFrom (remap : List (α × Nat)) (next : Nat) (labels : List α) :
    (relabelFrom remap next labels).length = labels.length := by
  induction labels generalizing remap next with
  | nil => rfl
  | cons label labels ih =>
      rw [relabelFrom]
      split
      · rw [List.length_cons, ih, List.length_cons]
      · rw [List.length_cons, ih, List.length_cons]

theorem length_relabel (labels : List α) : (relabel labels).length = labels.length :=
  length_relabelFrom [] 0 labels

/-- The table gives numbers below the next one only. -/
theorem lookup_cons_lt {remap : List (α × Nat)} {next : Nat}
    (h : ∀ label id, remap.lookup label = some id → id < next) (label : α) :
    ∀ label' id, ((label, next) :: remap).lookup label' = some id → id < next + 1 := by
  intro label' id hid
  rw [List.lookup_cons] at hid
  split at hid
  · cases hid
    exact Nat.lt_succ_self next
  · exact Nat.lt_succ_of_lt (h label' id hid)

/-- Relabelling behind labels that use all numbers so far is canonical. -/
theorem canonical_relabelFrom {remap : List (α × Nat)} {next : Nat} (labels : List α)
    (hremap : ∀ label id, remap.lookup label = some id → id < next) {done : List Nat}
    (hdone : ∀ id < next, id ∈ done) {before after : List Nat} {label : Nat}
    (h : relabelFrom remap next labels = before ++ label :: after) :
    ∀ smaller < label, smaller ∈ done ++ before := by
  induction labels generalizing remap next done before with
  | nil => exact absurd h.symm (List.append_ne_nil_of_right_ne_nil _ (List.cons_ne_nil _ _))
  | cons first labels ih =>
      intro smaller hlt
      rw [relabelFrom] at h
      split at h
      · rename_i id hid
        cases before with
        | nil =>
            cases h
            exact List.mem_append_left _ (hdone smaller (Nat.lt_trans hlt (hremap first _ hid)))
        | cons b before =>
            cases (List.cons.inj h).1
            have hdone' : ∀ id' < next, id' ∈ done ++ [id] := fun id' hid' ↦
              List.mem_append_left _ (hdone id' hid')
            have hmem := ih hremap hdone' (List.cons.inj h).2 smaller hlt
            rwa [List.append_assoc] at hmem
      · cases before with
        | nil =>
            cases h
            exact List.mem_append_left _ (hdone smaller hlt)
        | cons b before =>
            cases (List.cons.inj h).1
            have hdone' : ∀ id' < next + 1, id' ∈ done ++ [next] := by
              intro id' hid'
              rcases Nat.lt_succ_iff_lt_or_eq.mp hid' with hid' | rfl
              · exact List.mem_append_left _ (hdone id' hid')
              · exact List.mem_append_right _ (List.mem_singleton_self _)
            have hmem := ih (lookup_cons_lt hremap first) hdone' (List.cons.inj h).2 smaller hlt
            rwa [List.append_assoc] at hmem

/-- What `relabel` makes is canonical. -/
theorem canonical_relabel (labels : List α) : Canonical (relabel labels) := by
  intro before label after h
  have hunused : ∀ id < 0, id ∈ ([] : List Nat) := fun id hid ↦ absurd hid (Nat.not_lt_zero id)
  refine canonical_relabelFrom labels ?_ hunused h
  intro label id hid
  cases hid

/-- Every number up to a label of a canonical list occurs in it. -/
theorem Canonical.mem_of_le {labels : List Nat} (h : Canonical labels) {label smaller : Nat}
    (hlabel : label ∈ labels) (hle : smaller ≤ label) : smaller ∈ labels := by
  rcases Nat.lt_or_eq_of_le hle with hlt | rfl
  · obtain ⟨before, after, rfl⟩ := List.append_of_mem hlabel
    exact List.mem_append_left _ (h before label after rfl smaller hlt)
  · exact hlabel

/-! ## The same blocks -/

section Table

variable {remap : List (α × Nat)} {next : Nat} {first : α}

/-- A label that has a number keeps it when a new one is given one. -/
theorem lookup_cons_of_lookup (hfirst : remap.lookup first = none) {label : α} {id : Nat}
    (hid : remap.lookup label = some id) : ((first, next) :: remap).lookup label = some id := by
  have hne : label ≠ first := by
    rintro rfl
    rw [hfirst] at hid
    cases hid
  rw [List.lookup_cons, beq_eq_false_iff_ne.mpr hne]
  exact hid

theorem lookup_cons_cases {label : α} {id : Nat}
    (hid : ((first, next) :: remap).lookup label = some id) :
    label = first ∧ id = next ∨ remap.lookup label = some id := by
  rw [List.lookup_cons] at hid
  split at hid
  · rename_i heq
    exact Or.inl ⟨eq_of_beq heq, (Option.some.inj hid).symm⟩
  · exact Or.inr hid

/-- The new number is not one that was given before. -/
theorem lookup_cons_inj (hlt : ∀ label id, remap.lookup label = some id → id < next)
    (hinj : ∀ label label' id, remap.lookup label = some id → remap.lookup label' = some id →
      label = label') (first : α) :
    ∀ label label' id, ((first, next) :: remap).lookup label = some id →
      ((first, next) :: remap).lookup label' = some id → label = label' := by
  intro label label' id hid hid'
  rcases lookup_cons_cases hid with ⟨rfl, rfl⟩ | hold
  · rcases lookup_cons_cases hid' with ⟨rfl, -⟩ | hold'
    · rfl
    · exact absurd (hlt label' _ hold') (Nat.lt_irrefl _)
  · rcases lookup_cons_cases hid' with ⟨-, rfl⟩ | hold'
    · exact absurd (hlt label _ hold) (Nat.lt_irrefl _)
    · exact hinj label label' id hold hold'

/-- A label that is seen or has a number is one of the rest, or has a number after the first one
was given its own. -/
theorem known_of_cons {remap' : List (α × Nat)} {labels : List α}
    (hfirst : (remap'.lookup first).isSome)
    (hkeeps : ∀ label id, remap.lookup label = some id → remap'.lookup label = some id)
    {label : α} (h : label ∈ first :: labels ∨ (remap.lookup label).isSome) :
    label ∈ labels ∨ (remap'.lookup label).isSome := by
  rcases h with hmem | hsome
  · rcases List.mem_cons.mp hmem with rfl | hmem
    · exact Or.inr hfirst
    · exact Or.inl hmem
  · obtain ⟨id, hid⟩ := Option.isSome_iff_exists.mp hsome
    rw [hkeeps label id hid]
    exact Or.inr rfl

end Table

/-- Relabelling gives each label a number of its own, and those seen before keep theirs. -/
theorem relabelFrom_eq_map {remap : List (α × Nat)} {next : Nat} (labels : List α)
    (hlt : ∀ label id, remap.lookup label = some id → id < next)
    (hinj : ∀ label label' id, remap.lookup label = some id → remap.lookup label' = some id →
      label = label') :
    ∃ f : α → Nat, relabelFrom remap next labels = labels.map f ∧
      (∀ label id, remap.lookup label = some id → f label = id) ∧
      ∀ label label', label ∈ labels ∨ (remap.lookup label).isSome →
        label' ∈ labels ∨ (remap.lookup label').isSome → f label = f label' → label = label' := by
  induction labels generalizing remap next with
  | nil =>
      refine ⟨fun label ↦ (remap.lookup label).getD 0, rfl, fun label id hid ↦ ?_, ?_⟩
      · dsimp only
        rw [hid, Option.getD_some]
      · intro label label' hlabel hlabel' heq
        obtain ⟨id, hid⟩ := Option.isSome_iff_exists.mp (hlabel.resolve_left List.not_mem_nil)
        obtain ⟨id', hid'⟩ := Option.isSome_iff_exists.mp (hlabel'.resolve_left List.not_mem_nil)
        dsimp only at heq
        rw [hid, hid', Option.getD_some, Option.getD_some] at heq
        exact hinj label label' id hid (heq ▸ hid')
  | cons first labels ih =>
      rw [relabelFrom]
      cases hfirst : remap.lookup first with
      | some number =>
          obtain ⟨f, hmap, hkeeps, hf⟩ := ih hlt hinj
          have hsome : (remap.lookup first).isSome := by
            rw [hfirst]
            rfl
          refine ⟨f, ?_, hkeeps, fun label label' hlabel hlabel' ↦
            hf label label' (known_of_cons hsome (fun _ _ ↦ id) hlabel)
              (known_of_cons hsome (fun _ _ ↦ id) hlabel')⟩
          rw [List.map_cons, hkeeps first number hfirst, ← hmap]
      | none =>
          have hnew : ((first, next) :: remap).lookup first = some next := by
            rw [List.lookup_cons, beq_self_eq_true]
          have hsome : (((first, next) :: remap).lookup first).isSome := by
            rw [hnew]
            rfl
          have hold : ∀ label id, remap.lookup label = some id →
              ((first, next) :: remap).lookup label = some id :=
            fun _ _ ↦ lookup_cons_of_lookup hfirst
          obtain ⟨f, hmap, hkeeps, hf⟩ :=
            ih (lookup_cons_lt hlt first) (lookup_cons_inj hlt hinj first)
          refine ⟨f, ?_, fun label id hid ↦ hkeeps label id (hold label id hid),
            fun label label' hlabel hlabel' ↦
              hf label label' (known_of_cons hsome hold hlabel) (known_of_cons hsome hold hlabel')⟩
          rw [List.map_cons, hkeeps first next hnew, ← hmap]

theorem exists_relabel_eq_map (labels : List α) : ∃ f : α → Nat, relabel labels = labels.map f ∧
    ∀ label ∈ labels, ∀ label' ∈ labels, f label = f label' → label = label' := by
  obtain ⟨f, hmap, -, hf⟩ := @relabelFrom_eq_map α _ [] 0 labels
    (fun label id hid ↦ nomatch hid) (fun label label' id hid ↦ nomatch hid)
  exact ⟨f, hmap, fun label hlabel label' hlabel' ↦ hf label label' (.inl hlabel) (.inl hlabel')⟩

/-- Two lists of labels make the same blocks: the same positions have the same label. -/
def SameBlocks {β : Type*} (labels : List α) (labels' : List β) : Prop :=
  labels.length = labels'.length ∧
    ∀ i < labels.length, ∀ j < labels.length, labels[i]? = labels[j]? ↔ labels'[i]? = labels'[j]?

section SameBlocks

variable {β γ : Type*} {labels : List α} {labels' : List β} {labels'' : List γ}

omit [DecidableEq α] in
theorem SameBlocks.symm (h : SameBlocks labels labels') : SameBlocks labels' labels :=
  ⟨h.1.symm, fun i hi j hj ↦ (h.2 i (h.1 ▸ hi) j (h.1 ▸ hj)).symm⟩

omit [DecidableEq α] in
theorem SameBlocks.trans (h : SameBlocks labels labels') (h' : SameBlocks labels' labels'') :
    SameBlocks labels labels'' :=
  ⟨h.1.trans h'.1, fun i hi j hj ↦ (h.2 i hi j hj).trans (h'.2 i (h.1 ▸ hi) j (h.1 ▸ hj))⟩

omit [DecidableEq α] in
/-- Labels with other names make the same blocks. -/
theorem sameBlocks_map {f : α → β}
    (hf : ∀ label ∈ labels, ∀ label' ∈ labels, f label = f label' → label = label') :
    SameBlocks labels (labels.map f) := by
  refine ⟨(List.length_map f).symm, fun i hi j hj ↦ ?_⟩
  rw [List.getElem?_map, List.getElem?_map, List.getElem?_eq_getElem hi,
    List.getElem?_eq_getElem hj, Option.map_some, Option.map_some, Option.some.injEq,
    Option.some.injEq]
  exact ⟨congrArg f, hf _ (List.getElem_mem hi) _ (List.getElem_mem hj)⟩

theorem sameBlocks_relabel (labels : List α) : SameBlocks labels (relabel labels) := by
  obtain ⟨f, hmap, hf⟩ := exists_relabel_eq_map labels
  rw [hmap]
  exact sameBlocks_map hf

omit [DecidableEq α] in
/-- A label that has been given before is given in both lists. -/
theorem SameBlocks.getElem_eq {labels labels' : List α} (h : SameBlocks labels labels') {n : Nat}
    (htake : labels.take n = labels'.take n) (hn : n < labels.length) (hn' : n < labels'.length)
    (hmem : labels[n] ∈ labels.take n) : labels[n] = labels'[n] := by
  obtain ⟨i, hi, hget⟩ := List.mem_take_iff_getElem.mp hmem
  have hin : i < n := Nat.lt_of_lt_of_le hi (Nat.min_le_left _ _)
  have hi' : i < labels.length := Nat.lt_trans hin hn
  have hblock := (h.2 i hi' n hn).mp (by
    rw [List.getElem?_eq_getElem hi', List.getElem?_eq_getElem hn, hget])
  have hsame : labels[i]? = labels'[i]? := by
    have htake' := congrArg (·[i]?) htake
    rwa [List.getElem?_take_of_lt hin, List.getElem?_take_of_lt hin] at htake'
  rw [← hsame, List.getElem?_eq_getElem hi', List.getElem?_eq_getElem hn', hget] at hblock
  exact Option.some.inj hblock

theorem Canonical.mem_take {labels : List Nat} (h : Canonical labels) {n smaller : Nat}
    (hn : n < labels.length) (hlt : smaller < labels[n]) : smaller ∈ labels.take n := by
  refine h (labels.take n) labels[n] (labels.drop (n + 1)) ?_ smaller hlt
  rw [List.getElem_cons_drop, List.take_append_drop]

/-- There is one canonical list for each way of making blocks. -/
theorem Canonical.eq_of_sameBlocks {labels labels' : List Nat} (hcanonical : Canonical labels)
    (hcanonical' : Canonical labels') (h : SameBlocks labels labels') : labels = labels' := by
  -- a label is one that has been given before, or the least one that has not
  suffices hfrom : ∀ n ≤ labels.length, labels.take n = labels'.take n by
    have hall := hfrom labels.length (Nat.le_refl _)
    rwa [List.take_length, h.1, List.take_length] at hall
  intro n
  induction n with
  | zero => exact fun _ ↦ rfl
  | succ n ih =>
      intro hn
      have hn' : n < labels'.length := h.1 ▸ hn
      have htake := ih (Nat.le_of_succ_le hn)
      rw [List.take_add_one, List.take_add_one, htake, List.getElem?_eq_getElem hn,
        List.getElem?_eq_getElem hn']
      congr 2
      by_cases hmem : labels[n] ∈ labels.take n
      · exact congrArg some (h.getElem_eq htake hn hn' hmem)
      · have hmem' : labels'[n] ∉ labels'.take n := fun hmem' ↦ by
          rw [h.symm.getElem_eq htake.symm hn' hn hmem', ← htake] at hmem'
          exact hmem hmem'
        rcases Nat.lt_trichotomy labels[n] labels'[n] with hlt | heq | hgt
        · exact absurd (htake ▸ hcanonical'.mem_take hn' hlt) hmem
        · exact congrArg some heq
        · exact absurd (htake ▸ hcanonical.mem_take hn hgt) hmem'

/-- A canonical list is its own canonical form. -/
theorem Canonical.relabel_eq {labels : List Nat} (h : Canonical labels) :
    relabel labels = labels :=
  ((canonical_relabel labels).eq_of_sameBlocks h (sameBlocks_relabel labels).symm)

/-- The canonical form tells just how blocks are made. -/
theorem relabel_eq_iff [DecidableEq β] : relabel labels = relabel labels' ↔
    SameBlocks labels labels' := by
  constructor
  · intro h
    have hsame := sameBlocks_relabel labels
    rw [h] at hsame
    exact hsame.trans (sameBlocks_relabel labels').symm
  · intro h
    exact (canonical_relabel labels).eq_of_sameBlocks (canonical_relabel labels')
      ((sameBlocks_relabel labels).symm.trans (h.trans (sameBlocks_relabel labels')))

end SameBlocks

/-! ## Blocks -/

section Blocks

variable {β γ : Type*}

/-- The items with a label. -/
def block (items : List β) (labels : List α) (label : α) : List β :=
  ((items.zip labels).filter (·.2 = label)).map Prod.fst

/-- How many blocks numbered labels make, as long as no number is left out. -/
def blockCount (labels : List Nat) : Nat := (labels.max?.map (· + 1)).getD 0

theorem block_cons (item : β) (items : List β) (first : α) (labels : List α) (label : α) :
    block (item :: items) (first :: labels) label =
      if first = label then item :: block items labels label else block items labels label := by
  unfold block
  rw [List.zip_cons_cons, List.filter_cons]
  by_cases h : first = label
  · rw [if_pos h, if_pos (decide_eq_true h), List.map_cons]
  · rw [if_neg h, if_neg (by simpa using h)]

/-- Blocks only depend on where the items are. -/
theorem forall₂_block {R : β → γ → Prop} {items : List β} {items' : List γ}
    (h : List.Forall₂ R items items') (labels : List α) (label : α) :
    List.Forall₂ R (block items labels label) (block items' labels label) := by
  induction h generalizing labels with
  | nil => exact .nil
  | cons hab _ ih =>
      cases labels with
      | nil => exact .nil
      | cons first labels =>
          rw [block_cons, block_cons]
          split
          · exact .cons hab (ih labels)
          · exact ih labels

/-- The block of a label that occurs is not empty. -/
theorem block_ne_nil {items : List β} {labels : List α} (hlen : items.length = labels.length)
    {label : α} (h : label ∈ labels) : block items labels label ≠ [] := by
  induction labels generalizing items with
  | nil => cases h
  | cons first labels ih =>
      cases items with
      | nil => cases hlen
      | cons item items =>
          rw [block_cons]
          split
          · exact List.cons_ne_nil _ _
          · rename_i hne
            exact ih (Nat.succ.inj hlen) ((List.mem_cons.mp h).resolve_left (Ne.symm hne))

theorem mem_block {items : List β} {labels : List α} {item : β} {label : α} :
    item ∈ block items labels label ↔
      ∃ i : Nat, items[i]? = some item ∧ labels[i]? = some label := by
  unfold block
  rw [List.mem_map]
  constructor
  · rintro ⟨⟨item', label'⟩, hmem, rfl⟩
    obtain ⟨hzip, hlabel⟩ := List.mem_filter.mp hmem
    obtain ⟨i, hi⟩ := List.mem_iff_getElem?.mp hzip
    rw [List.getElem?_zip_eq_some] at hi
    exact ⟨i, hi.1, hi.2.trans (congrArg some (of_decide_eq_true hlabel))⟩
  · rintro ⟨i, hitem, hlabel⟩
    refine ⟨(item, label), List.mem_filter.mpr ⟨?_, decide_eq_true rfl⟩, rfl⟩
    exact List.mem_iff_getElem?.mpr ⟨i, List.getElem?_zip_eq_some.mpr ⟨hitem, hlabel⟩⟩

/-- A block takes items in their order, each once. -/
theorem block_sublist (items : List β) (labels : List α) (label : α) :
    (block items labels label).Sublist items := by
  induction items generalizing labels with
  | nil => exact List.Sublist.refl _
  | cons item items ih =>
      cases labels with
      | nil => exact List.nil_sublist _
      | cons first labels =>
          rw [block_cons]
          split
          · exact (ih labels).cons_cons item
          · exact (ih labels).cons item

/-- Different labels have different blocks. -/
theorem block_injective {items : List β} {labels : List α} (hnodup : items.Nodup)
    (hlen : items.length = labels.length) {label label' : α} (h : label ∈ labels)
    (heq : block items labels label = block items labels label') : label = label' := by
  obtain ⟨item, hitem⟩ := List.exists_mem_of_ne_nil _ (block_ne_nil hlen h)
  obtain ⟨i, hi, hlabel⟩ := mem_block.mp hitem
  obtain ⟨j, hj, hlabel'⟩ := mem_block.mp (heq ▸ hitem)
  have hij : i = j :=
    (List.getElem?_inj (List.getElem?_eq_some_iff.mp hi).1 hnodup).mp (hi.trans hj.symm)
  exact Option.some.inj (hlabel.symm.trans (hij ▸ hlabel'))

/-- Put an item into the block with its number. -/
def push (blocks : List (List β)) (label : Nat) (item : β) : Option (List (List β)) :=
  blocks[label]?.map fun members ↦ blocks.set label (members ++ [item])

theorem push_map_range {count label : Nat} (h : label < count) (blocks : Nat → List β) (item : β) :
    push ((List.range count).map blocks) label item = some ((List.range count).map fun other ↦
      if label = other then blocks other ++ [item] else blocks other) := by
  unfold push
  rw [List.getElem?_map, List.getElem?_range h]
  refine congrArg some (List.ext_getElem ?_ fun n h₁ h₂ ↦ ?_)
  · rw [List.length_set, List.length_map, List.length_map]
  · simp only [List.getElem_set, List.getElem_map, List.getElem_range]
    split
    · rename_i heq
      rw [heq]
    · rfl

/-- Pushing all items in turn makes all blocks at once. -/
theorem foldlM_push {count : Nat} {items : List (β × Nat)} (h : ∀ item ∈ items, item.2 < count)
    (blocks : Nat → List β) :
    items.foldlM (fun blocks item ↦ push blocks item.2 item.1) ((List.range count).map blocks) =
      some ((List.range count).map fun label ↦
        blocks label ++ (items.filter (·.2 = label)).map Prod.fst) := by
  induction items generalizing blocks with
  | nil => simp
  | cons item items ih =>
      rw [List.foldlM_cons, push_map_range (h item List.mem_cons_self)]
      refine (ih (fun i hi ↦ h i (List.mem_cons_of_mem _ hi)) _).trans ?_
      refine congrArg some (List.map_congr_left fun label _ ↦ ?_)
      rw [List.filter_cons]
      by_cases hlabel : item.2 = label
      · rw [if_pos hlabel, if_pos (decide_eq_true hlabel), List.map_cons, List.append_assoc]
        rfl
      · rw [if_neg hlabel, if_neg (by simpa using hlabel)]

/-- All labels are below the number of blocks. -/
theorem lt_blockCount {labels : List Nat} {label : Nat} (h : label ∈ labels) :
    label < blockCount labels := by
  unfold blockCount
  cases hmax : labels.max? with
  | none =>
      rw [List.max?_eq_none_iff.mp hmax] at h
      cases h
  | some last => exact Nat.lt_succ_of_le ((List.max?_eq_some_iff.mp hmax).2 label h)

/-- The numbers of the blocks of a canonical list all occur. -/
theorem Canonical.mem_of_lt {labels : List Nat} (h : Canonical labels) {label : Nat}
    (hlt : label < blockCount labels) : label ∈ labels := by
  unfold blockCount at hlt
  cases hmax : labels.max? with
  | none =>
      rw [hmax] at hlt
      exact absurd hlt (Nat.not_lt_zero label)
  | some last =>
      rw [hmax] at hlt
      exact h.mem_of_le (List.max?_eq_some_iff.mp hmax).1 (Nat.le_of_lt_succ hlt)

/-! ### The blocks of all positions -/

theorem mem_block_range {labels : List α} {i : Nat} {label : α} :
    i ∈ block (List.range labels.length) labels label ↔ labels[i]? = some label := by
  rw [mem_block]
  constructor
  · rintro ⟨j, hj, hlabel⟩
    obtain ⟨hlt, hget⟩ := List.getElem?_eq_some_iff.mp hj
    rw [List.getElem_range] at hget
    exact hget ▸ hlabel
  · intro hlabel
    exact ⟨i, List.getElem?_range (List.getElem?_eq_some_iff.mp hlabel).1, hlabel⟩

/-- Ascending lists that divide the first `n` numbers. -/
structure Divides (n : Nat) (blocks : List (List Nat)) : Prop where
  nonempty : ∀ members ∈ blocks, members ≠ []
  ascending : ∀ members ∈ blocks, members.Pairwise (· < ·)
  disjoint : blocks.Pairwise List.Disjoint
  covers (i : Nat) : i < n ↔ ∃ members ∈ blocks, i ∈ members

/-- The blocks of numbered labels, in the order of their numbers. -/
def blocksOf (labels : List Nat) : List (List Nat) :=
  (List.range (blockCount labels)).map (block (List.range labels.length) labels)

/-- The blocks of a canonical list divide its positions. -/
theorem Canonical.divides {labels : List Nat} (h : Canonical labels) :
    Divides labels.length (blocksOf labels) where
  nonempty := by
    refine List.forall_mem_map.mpr fun label hlabel ↦ block_ne_nil List.length_range ?_
    exact h.mem_of_lt (List.mem_range.mp hlabel)
  ascending := List.forall_mem_map.mpr fun label _ ↦
    List.pairwise_lt_range.sublist (block_sublist _ _ _)
  disjoint := by
    refine List.pairwise_map.mpr (List.nodup_range.imp fun {label label'} hne i hi hi' ↦ hne ?_)
    exact Option.some.inj ((mem_block_range.mp hi).symm.trans (mem_block_range.mp hi'))
  covers i := by
    simp only [blocksOf, List.mem_map, exists_exists_and_eq_and, List.mem_range, mem_block_range]
    constructor
    · intro hi
      exact ⟨labels[i], lt_blockCount (List.getElem_mem hi), List.getElem?_eq_getElem hi⟩
    · rintro ⟨label, -, hlabel⟩
      exact (List.getElem?_eq_some_iff.mp hlabel).1

/-- Two positions are in one block if they have the same label. -/
theorem mem_same_block_iff {labels : List Nat} {i j : Nat} (hi : i < labels.length) :
    (∃ members ∈ blocksOf labels, i ∈ members ∧ j ∈ members) ↔ labels[i]? = labels[j]? := by
  simp only [blocksOf, List.mem_map, exists_exists_and_eq_and, List.mem_range, mem_block_range]
  constructor
  · rintro ⟨label, -, hlabel, hlabel'⟩
    exact hlabel.trans hlabel'.symm
  · intro hsame
    rw [List.getElem?_eq_getElem hi] at hsame
    exact ⟨labels[i], lt_blockCount (List.getElem_mem hi), List.getElem?_eq_getElem hi, hsame.symm⟩

/-! ### Sizes -/

theorem length_block {items : List β} {labels : List α} (hlen : items.length = labels.length)
    (label : α) : (block items labels label).length = labels.count label := by
  induction labels generalizing items with
  | nil =>
      rw [List.length_eq_zero_iff.mp hlen]
      rfl
  | cons first labels ih =>
      cases items with
      | nil => cases hlen
      | cons item items =>
          have hrest := ih (Nat.succ.inj hlen)
          rw [block_cons]
          split
          · rename_i heq
            subst heq
            rw [List.length_cons, hrest, List.count_cons_self]
          · rename_i hne
            rw [hrest, List.count_cons_of_ne hne]

/-- The labels of blocks of these sizes, one block behind the other. -/
def labelsOf (sizes : List Nat) : List Nat :=
  sizes.zipIdx.flatMap fun part ↦ List.replicate part.1 part.2

theorem length_labelsOf (sizes : List Nat) : (labelsOf sizes).length = sizes.sum := by
  have hlengths : sizes.zipIdx.map (fun part ↦ (List.replicate part.1 part.2).length) = sizes := by
    simp only [List.length_replicate]
    exact List.zipIdx_map_fst 0 sizes
  rw [labelsOf, List.length_flatMap, hlengths]

/-- As often as its block is large, a label occurs. -/
theorem count_labelsOf (sizes : List Nat) (label : Nat) :
    (labelsOf sizes).count label = sizes[label]?.getD 0 := by
  suffices hfrom : ∀ (sizes : List Nat) (start : Nat),
      ((sizes.zipIdx start).flatMap fun part ↦ List.replicate part.1 part.2).count label =
        if label < start then 0 else sizes[label - start]?.getD 0 by
    rw [labelsOf, hfrom, if_neg (Nat.not_lt_zero label), Nat.sub_zero]
  intro sizes
  induction sizes with
  | nil =>
      intro start
      simp
  | cons size sizes ih =>
      intro start
      rw [List.zipIdx_cons, List.flatMap_cons, List.count_append, ih (start + 1),
        List.count_replicate]
      rcases Nat.lt_trichotomy label start with hlt | rfl | hgt
      · simp [hlt, Nat.lt_succ_of_lt hlt, Nat.ne_of_gt hlt]
      · simp
      · obtain ⟨k, rfl⟩ := Nat.exists_eq_add_of_lt hgt
        have hindex : start + k + 1 - (start + 1) = k := by omega
        have hindex' : start + k + 1 - start = k + 1 := by omega
        have hbehind : ¬start + k + 1 < start := by omega
        have hbehind' : ¬start + k + 1 < start + 1 := by omega
        have hne : ¬start = start + k + 1 := by omega
        rw [hindex, hindex', if_neg hbehind, if_neg hbehind', List.getElem?_cons_succ]
        simp [hne]

/-- Labels with other names make blocks of the same sizes. -/
theorem count_map_of_mem {labels : List α} {f : α → Nat}
    (hf : ∀ label ∈ labels, ∀ label' ∈ labels, f label = f label' → label = label') {label : α}
    (hlabel : label ∈ labels) : (labels.map f).count (f label) = labels.count label := by
  rw [List.count, List.countP_map, List.count]
  refine List.countP_congr fun label' hlabel' ↦ ?_
  rw [Function.comp_apply, beq_iff_eq, beq_iff_eq]
  exact ⟨hf label' hlabel' label hlabel, congrArg f⟩

/-- The canonical form of labels that are those of blocks of some sizes, in any order, makes
blocks of these sizes, in some order. -/
theorem sizes_relabel_perm {labels sizes : List Nat} (hperm : labels.Perm (labelsOf sizes))
    (hpos : ∀ size ∈ sizes, 0 < size) :
    ((blocksOf (relabel labels)).map List.length).Perm sizes := by
  obtain ⟨f, hmap, hf⟩ := exists_relabel_eq_map labels
  have hcount : ∀ label < sizes.length, labels.count label = sizes[label]?.getD 0 :=
    fun label _ ↦ (hperm.count_eq label).trans (count_labelsOf sizes label)
  have hmem : ∀ label, label ∈ labels ↔ label < sizes.length := by
    intro label
    rw [← List.count_pos_iff, hperm.count_eq, count_labelsOf]
    by_cases hlt : label < sizes.length
    · rw [List.getElem?_eq_getElem hlt, Option.getD_some]
      exact iff_of_true (hpos _ (List.getElem_mem hlt)) hlt
    · rw [List.getElem?_eq_none (Nat.le_of_not_lt hlt)]
      exact iff_of_false (Nat.lt_irrefl 0) hlt
  have hnumbers : ((List.range sizes.length).map f).Perm
      (List.range (blockCount (relabel labels))) := by
    refine (List.perm_ext_iff_of_nodup ?_ List.nodup_range).mpr fun number ↦ ?_
    · refine List.Nodup.map_on (fun label hlabel label' hlabel' ↦ ?_) List.nodup_range
      exact hf label ((hmem label).mpr (List.mem_range.mp hlabel)) label'
        ((hmem label').mpr (List.mem_range.mp hlabel'))
    · have hoccurs : number ∈ List.range (blockCount (relabel labels)) ↔ number ∈ relabel labels :=
        List.mem_range.trans ⟨(canonical_relabel labels).mem_of_lt, lt_blockCount⟩
      rw [hoccurs, hmap, List.mem_map, List.mem_map]
      simp only [hmem, List.mem_range]
  have hsizes : (List.range sizes.length).map (fun label ↦ (relabel labels).count (f label)) =
      sizes := by
    refine List.ext_getElem (by rw [List.length_map, List.length_range]) fun label hlt hlt' ↦ ?_
    rw [List.getElem_map, List.getElem_range, hmap,
      count_map_of_mem hf ((hmem label).mpr hlt'), hcount label hlt',
      List.getElem?_eq_getElem hlt', Option.getD_some]
  have hlengths : (blocksOf (relabel labels)).map List.length =
      (List.range (blockCount (relabel labels))).map ((relabel labels).count ·) := by
    rw [blocksOf, List.map_map]
    exact List.map_congr_left fun label _ ↦ length_block List.length_range label
  have hperm' := hnumbers.map ((relabel labels).count ·)
  rw [List.map_map] at hperm'
  rw [hlengths]
  exact hperm'.symm.trans (List.Perm.of_eq hsizes)

end Blocks

end Koalisi.Lib.Labelling
