import Koalisi.Persistence.Store

/-!
# How frames lie in segment files

A stream's frames are split into segments, each a file of packed frames named by
the number of frames before it.  All segments but the last hold a frame at least;
behind the last may stand bytes that belong to no frame, left there by a write
that failed or was cut off.  The index in memory lists the same segments, except
that it may list empty ones besides: a store that rotates at zero records opens a
new segment for every append, also after one that failed.

`Laid` says that files and index are of this form, and `Laid.fetch` that every
frame is then found where the index says.
-/

namespace Koalisi.Persistence

open Koalisi.Lib.Framing

/-- The files of segments that hold the given frames, the first named `pos`. -/
def layout (pos : Nat) : List (List Bytes) → Files
  | [] => []
  | seg :: segs => (pos, packed seg) :: layout (pos + seg.length) segs

/-- The index of the same segments. -/
def index (pos : Nat) : List (List Bytes) → List SegmentIndex
  | [] => []
  | seg :: segs => ⟨pos, starts 0 seg⟩ :: index (pos + seg.length) segs

/-- The segment has a frame. -/
def SegmentIndex.occupied (seg : SegmentIndex) : Bool := !seg.frameOffsets.isEmpty

/-- The files and the index of segments `closed` and, behind them, the active segment
`last`, whose file goes on with `spill`. -/
structure Laid (files : Files) (segments : List SegmentIndex) (closed : List (List Bytes))
    (last : List Bytes) (spill : Bytes) : Prop where
  files_eq : files = layout 0 closed ++ [(closed.flatten.length, packed last ++ spill)]
  nonempty : ∀ seg ∈ closed, seg ≠ []
  small : ∀ p ∈ closed.flatten ++ last, Small p
  index_eq : ∃ older, segments = older ++ [⟨closed.flatten.length, starts 0 last⟩] ∧
    older.filter SegmentIndex.occupied = index 0 closed

/-! ## Looking into a layout -/

theorem layout_append (pos : Nat) (xs ys : List (List Bytes)) :
    layout pos (xs ++ ys) = layout pos xs ++ layout (pos + xs.flatten.length) ys := by
  induction xs generalizing pos with
  | nil => rfl
  | cons x xs ih =>
      rw [List.cons_append, layout, ih, layout, List.flatten_cons, List.length_append,
        List.cons_append, Nat.add_assoc]

theorem index_append (pos : Nat) (xs ys : List (List Bytes)) :
    index pos (xs ++ ys) = index pos xs ++ index (pos + xs.flatten.length) ys := by
  induction xs generalizing pos with
  | nil => rfl
  | cons x xs ih =>
      rw [List.cons_append, index, ih, index, List.flatten_cons, List.length_append,
        List.cons_append, Nat.add_assoc]

/-- Nonempty segments are named by numbers below the number of their frames. -/
theorem layout_key_lt {pos : Nat} {segs : List (List Bytes)} (h : ∀ seg ∈ segs, seg ≠ [])
    {f : Nat × Bytes} (hf : f ∈ layout pos segs) : f.1 < pos + segs.flatten.length := by
  induction segs generalizing pos with
  | nil => cases hf
  | cons seg segs ih =>
      have hpos := List.length_pos_iff.mpr (h seg List.mem_cons_self)
      rw [List.flatten_cons, List.length_append]
      rcases List.mem_cons.mp hf with rfl | hf
      · change pos < _
        omega
      · have := ih (fun s hs ↦ h s (List.mem_cons_of_mem _ hs)) hf
        omega

theorem layout_key_ge {pos : Nat} {segs : List (List Bytes)} {f : Nat × Bytes}
    (hf : f ∈ layout pos segs) : pos ≤ f.1 := by
  induction segs generalizing pos with
  | nil => cases hf
  | cons seg segs ih =>
      rcases List.mem_cons.mp hf with rfl | hf
      · exact Nat.le_refl _
      · exact Nat.le_trans (Nat.le_add_right _ _) (ih hf)

/-- The files are listed in ascending order. -/
theorem layout_pairwise {pos : Nat} {segs : List (List Bytes)} (h : ∀ seg ∈ segs, seg ≠ []) :
    (layout pos segs).Pairwise fun a b ↦ a.1 < b.1 := by
  induction segs generalizing pos with
  | nil => exact List.Pairwise.nil
  | cons seg segs ih =>
      refine List.Pairwise.cons (fun f hf ↦ ?_) (ih fun s hs ↦ h s (List.mem_cons_of_mem _ hs))
      have := layout_key_ge hf
      have hpos := List.length_pos_iff.mpr (h seg List.mem_cons_self)
      change pos < f.1
      omega

/-- The file behind a layout is found under its name. -/
theorem lookup_last {segs : List (List Bytes)} (h : ∀ seg ∈ segs, seg ≠ []) (data : Bytes) :
    (layout 0 segs ++ [(segs.flatten.length, data)]).lookup segs.flatten.length = some data := by
  have hnone : (layout 0 segs).lookup segs.flatten.length = none := by
    rw [List.lookup_eq_none_iff]
    intro f hf
    have := layout_key_lt h hf
    rw [bne_iff_ne]
    omega
  rw [List.lookup_append, hnone, Option.none_or, List.lookup_cons_self]

/-- Every file of a layout is found under its name. -/
theorem lookup_layout {before after : List (List Bytes)} {seg : List Bytes}
    (h : ∀ s ∈ before ++ seg :: after, s ≠ []) (rest : Files) :
    (layout 0 (before ++ seg :: after) ++ rest).lookup before.flatten.length =
      some (packed seg) := by
  have hlast := lookup_last (fun s hs ↦ h s (List.mem_append_left _ hs)) (packed seg)
  rw [layout_append, layout, Nat.zero_add]
  rw [List.append_assoc, List.cons_append, List.lookup_append] at *
  cases hb : (layout 0 before).lookup before.flatten.length with
  | none => rw [Option.none_or, List.lookup_cons_self]
  | some data =>
      rw [hb] at hlast
      exact hlast

/-! ## Finding the segment of a frame -/

theorem segmentContaining_append (xs ys : List SegmentIndex) (seq : Nat) :
    segmentContaining (xs ++ ys) seq =
      (segmentContaining ys seq).or (segmentContaining xs seq) := by
  rw [segmentContaining, List.reverse_append, List.find?_append]
  rfl

/-- Empty segments contain nothing. -/
theorem segmentContaining_filter (segments : List SegmentIndex) (seq : Nat) :
    segmentContaining (segments.filter SegmentIndex.occupied) seq =
      segmentContaining segments seq := by
  unfold segmentContaining
  rw [← List.filter_reverse, List.find?_filter]
  congr 1
  funext seg
  rcases seg with ⟨firstSeq, - | ⟨o, os⟩⟩ <;> simp [SegmentIndex.occupied]

theorem segmentContaining_singleton {seg : SegmentIndex} {seq : Nat} :
    segmentContaining [seg] seq =
      if seg.firstSeq ≤ seq ∧ seq < seg.firstSeq + seg.frameOffsets.length then some seg
      else none := by
  unfold segmentContaining
  rw [List.reverse_singleton, List.find?_singleton]
  simp only [Bool.and_eq_true, decide_eq_true_eq]

theorem segmentContaining_index_of_lt {pos seq : Nat} (segs : List (List Bytes)) (h : seq < pos) :
    segmentContaining (index pos segs) seq = none := by
  induction segs generalizing pos with
  | nil => rfl
  | cons seg segs ih =>
      change segmentContaining ([_] ++ index (pos + seg.length) segs) seq = none
      rw [segmentContaining_append, ih (Nat.lt_add_right _ h), segmentContaining_singleton,
        if_neg (by change ¬ (pos ≤ seq ∧ _); omega)]
      rfl

/-- A frame is in the segment that starts with the frames before it. -/
theorem segmentContaining_index {before after : List (List Bytes)} {seg : List Bytes} {seq : Nat}
    (h : before.flatten.length ≤ seq) (h' : seq < before.flatten.length + seg.length) :
    segmentContaining (index 0 (before ++ seg :: after)) seq =
      some ⟨before.flatten.length, starts 0 seg⟩ := by
  have hafter := segmentContaining_index_of_lt after h'
  rw [index_append, index, Nat.zero_add, segmentContaining_append, ← List.singleton_append,
    segmentContaining_append, hafter, Option.none_or, segmentContaining_singleton,
    if_pos ⟨h, by rw [length_starts]; exact h'⟩, Option.some_or]

/-- Where a position falls among the segments. -/
theorem exists_segment {segs : List (List Bytes)} {seq : Nat} (h : seq < segs.flatten.length) :
    ∃ before seg after, segs = before ++ seg :: after ∧ before.flatten.length ≤ seq ∧
      seq < before.flatten.length + seg.length := by
  induction segs generalizing seq with
  | nil => cases h
  | cons seg segs ih =>
      rcases Nat.lt_or_ge seq seg.length with hlt | hge
      · exact ⟨[], seg, segs, rfl, Nat.zero_le _, by rw [List.flatten_nil, List.length_nil]; omega⟩
      · rw [List.flatten_cons, List.length_append] at h
        have h' : seq - seg.length < segs.flatten.length := by omega
        obtain ⟨before, s, after, rfl, hb, ha⟩ := ih h'
        refine ⟨seg :: before, s, after, rfl, ?_, ?_⟩ <;>
        · rw [List.flatten_cons, List.length_append]
          omega

/-- A frame of a segment is read back. -/
theorem readFrameBytesAt_of_located {files : Files} {segments : List SegmentIndex}
    {ps : List Bytes} {spill : Bytes} {pos i : Nat} (hps : ∀ p ∈ ps, Small p)
    (hseg : segmentContaining segments (pos + i) = some ⟨pos, starts 0 ps⟩)
    (hfile : files.lookup pos = some (packed ps ++ spill)) (h : i < ps.length)
    (stream : StreamId) :
    readFrameBytesAt files segments stream (pos + i) = .ok ps[i] := by
  have hoff : (starts 0 ps).getD i 0 = (packed (ps.take i)).length := by
    rw [List.getD_eq_getElem?_getD, starts_getElem? h, Nat.zero_add, Option.getD_some]
  -- what is on disk from the frame's offset on
  have hsplit : packed ps = packed (ps.take i) ++ packed (ps.drop i) := by
    rw [← packed_append, List.take_append_drop]
  have hdata : (packed ps ++ spill).drop (packed (ps.take i)).length =
      framed ps[i] ++ (packed (ps.drop (i + 1)) ++ spill) := by
    rw [hsplit, List.append_assoc, List.drop_left, List.drop_eq_getElem_cons h, packed_cons,
      List.append_assoc]
  have hsmall : Small ps[i] := hps _ (List.getElem_mem h)
  have hlen := congrArg List.length hdata
  rw [List.length_drop, @List.length_append _ (framed ps[i]), length_framed] at hlen
  have hframe : (packed ps ++ spill).drop ((packed (ps.take i)).length + 4) =
      ps[i] ++ (packed (ps.drop (i + 1)) ++ spill) := by
    rw [← List.drop_drop, hdata, framed, List.append_assoc]
    rfl
  unfold readFrameBytesAt
  rw [hseg]
  dsimp only
  rw [hfile]
  dsimp only
  rw [Nat.add_sub_cancel_left, hoff, hdata, ofLeBytes_framed hsmall, if_neg (by omega),
    if_neg (by omega), hframe, List.take_left]

/-- Every frame is found where the index says. -/
theorem Laid.fetch {files : Files} {segments : List SegmentIndex} {closed : List (List Bytes)}
    {last : List Bytes} {spill : Bytes} (h : Laid files segments closed last spill)
    (stream : StreamId) {seq : Nat} (hseq : seq < (closed.flatten ++ last).length) :
    readFrameBytesAt files segments stream seq = .ok (closed.flatten ++ last)[seq] := by
  obtain ⟨older, hidx, holder⟩ := h.index_eq
  have hfind : segmentContaining segments seq =
      (segmentContaining [⟨closed.flatten.length, starts 0 last⟩] seq).or
        (segmentContaining (index 0 closed) seq) := by
    rw [hidx, segmentContaining_append, ← segmentContaining_filter older, holder]
  rw [segmentContaining_singleton] at hfind
  rw [List.length_append] at hseq
  rcases Nat.lt_or_ge seq closed.flatten.length with hlt | hge
  · -- in a closed segment
    rw [if_neg (by rw [not_and_or]; exact Or.inl (Nat.not_le.mpr hlt)), Option.none_or] at hfind
    obtain ⟨before, seg, after, hsplit, hb, ha⟩ := exists_segment hlt
    rw [hsplit, segmentContaining_index hb ha] at hfind
    obtain ⟨i, rfl⟩ := Nat.exists_eq_add_of_le hb
    have hfile : files.lookup before.flatten.length = some (packed seg ++ []) := by
      rw [h.files_eq, hsplit, List.append_nil]
      exact lookup_layout (by rw [← hsplit]; exact h.nonempty) _
    have hsmall : ∀ p ∈ seg, Small p := fun p hp ↦ h.small p <| List.mem_append_left _ <|
      List.mem_flatten.mpr ⟨seg, by rw [hsplit]; exact List.mem_append_right _ List.mem_cons_self,
        hp⟩
    rw [readFrameBytesAt_of_located hsmall hfind hfile (Nat.lt_of_add_lt_add_left ha),
      Except.ok.injEq, List.getElem_append_left hlt]
    subst hsplit
    simp only [List.flatten_append, List.flatten_cons]
    rw [List.getElem_append_right hb, List.getElem_append_left] <;>
    simp only [Nat.add_sub_cancel_left, Nat.lt_of_add_lt_add_left ha]
  · -- in the active segment
    obtain ⟨i, rfl⟩ := Nat.exists_eq_add_of_le hge
    rw [if_pos ⟨hge, by change _ < _ + (starts 0 last).length; rw [length_starts]; exact hseq⟩,
      Option.some_or] at hfind
    have hfile := h.files_eq ▸ lookup_last h.nonempty (packed last ++ spill)
    have hsmall : ∀ p ∈ last, Small p := fun p hp ↦ h.small p (List.mem_append_right _ hp)
    rw [readFrameBytesAt_of_located hsmall hfind hfile (Nat.lt_of_add_lt_add_left hseq),
      Except.ok.injEq, List.getElem_append_right hge]
    simp only [Nat.add_sub_cancel_left]

end Koalisi.Persistence
