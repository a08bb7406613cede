import Koalisi.Persistence.Reading

/-!
# What opening a store finds

The scan of a segment file finds the frames packed in it and stops at a rest that
is torn, or at the end.  The scan of a directory succeeds exactly on segment files
that continue one another, all but the last without a rest, and cuts the rest off
the last one.  What it then holds in memory satisfies the invariant of a stream
again, whatever the directory held: `scanStream_ok`.
-/

namespace Koalisi.Persistence

open Koalisi.Lib.Framing Koalisi.Lib.Fallible

variable {prims : Primitives} {stream : StreamId}

/-! ## One segment file -/

/-- The walk over a segment file finds the frames packed in it. -/
theorem scanLoop_packed {ps : List Bytes} {tail : Bytes} (hps : ∀ p ∈ ps, Small p)
    (ht : Rest tail) (pre : Bytes) {fuel : Nat} (hf : (packed ps ++ tail).length ≤ fuel)
    (seq : Nat) (offsets : List Nat) :
    scanLoop (pre ++ (packed ps ++ tail)) fuel pre.length seq offsets =
      ⟨offsets ++ starts pre.length ps, pre.length + (packed ps).length, seq + ps.length,
        !tail.isEmpty⟩ := by
  induction ps generalizing pre fuel seq offsets with
  | nil =>
      rw [packed_nil, List.nil_append] at *
      rw [starts, List.append_nil]
      cases fuel with
      | zero =>
          rw [List.length_eq_zero_iff.mp (Nat.le_zero.mp hf)]
          rfl
      | succ fuel =>
          unfold scanLoop
          rw [List.drop_left, List.length_append, Nat.add_sub_cancel_left]
          dsimp only
          rcases ht with rfl | ⟨hpos, htorn⟩
          · rfl
          have hne : (!tail.isEmpty) = true := by
            rw [Bool.not_eq_true', List.isEmpty_eq_false_iff, ← List.length_pos_iff]
            exact hpos
          rw [if_neg (Nat.ne_of_gt hpos), hne]
          split
          · rfl
          · rw [if_pos (by omega)]
            rfl
  | cons p ps ih =>
      have hp : Small p := hps p List.mem_cons_self
      rw [packed_cons, List.append_assoc] at *
      have hlen : (framed p ++ (packed ps ++ tail)).length =
          4 + p.length + (packed ps ++ tail).length := by
        rw [List.length_append, length_framed]
      obtain ⟨fuel, rfl⟩ : ∃ n, fuel = n + 1 := ⟨fuel - 1, by omega⟩
      unfold scanLoop
      rw [List.drop_left, @List.length_append _ pre, Nat.add_sub_cancel_left, hlen,
        ofLeBytes_framed hp]
      dsimp only
      rw [if_neg (by omega), if_neg (by omega), if_neg (by omega)]
      have hf' : (packed ps ++ tail).length ≤ fuel := by omega
      have := ih (fun q hq ↦ hps q (List.mem_cons_of_mem _ hq)) (pre ++ framed p) hf' (seq + 1)
        (offsets ++ [pre.length])
      rw [List.append_assoc pre, List.length_append, length_framed] at this
      rw [this, starts, List.append_assoc, length_framed, @List.length_append _ (framed p),
        length_framed, List.length_cons, ScanEnd.mk.injEq]
      refine ⟨rfl, ?_, ?_, rfl⟩ <;> omega

/-- The scan of a segment file that holds whole frames and a rest. -/
theorem scanSegment_packed {ps : List Bytes} {tail : Bytes} (hps : ∀ p ∈ ps, Small p)
    (ht : Rest tail) (firstSeq : Nat) (isLast : Bool) :
    scanSegment stream firstSeq (packed ps ++ tail) isLast =
      if !tail.isEmpty && !isLast then
        .error (.decode stream (firstSeq + ps.length) "torn frame in non-tail segment")
      else .ok ⟨⟨firstSeq, starts 0 ps⟩, (packed ps).length, packed ps⟩ := by
  have hscan := scanLoop_packed hps ht [] (Nat.le_refl _) firstSeq []
  rw [List.nil_append, List.length_nil, List.nil_append, Nat.zero_add] at hscan
  unfold scanSegment
  rw [hscan]
  have hcontent : (if (!tail.isEmpty) = true then (packed ps ++ tail).take (packed ps).length
      else packed ps ++ tail) = packed ps := by
    split
    · rw [List.take_left]
    · rename_i hnil
      rw [Bool.not_eq_true', Bool.not_eq_false, List.isEmpty_iff] at hnil
      rw [hnil, List.append_nil]
  dsimp only
  rw [hcontent]

/-- Whole frames are found in any segment file. -/
theorem scanSegment_whole {ps : List Bytes} (hps : ∀ p ∈ ps, Small p) (firstSeq : Nat)
    (isLast : Bool) :
    scanSegment stream firstSeq (packed ps) isLast =
      .ok ⟨⟨firstSeq, starts 0 ps⟩, (packed ps).length, packed ps⟩ := by
  have h : scanSegment stream firstSeq (packed ps ++ []) isLast = _ :=
    scanSegment_packed hps rest_nil firstSeq isLast
  rw [List.append_nil] at h
  rw [h]
  rfl

/-- In the last segment file a rest is cut off. -/
theorem scanSegment_last {ps : List Bytes} {tail : Bytes} (hps : ∀ p ∈ ps, Small p)
    (ht : Rest tail) (firstSeq : Nat) :
    scanSegment stream firstSeq (packed ps ++ tail) true =
      .ok ⟨⟨firstSeq, starts 0 ps⟩, (packed ps).length, packed ps⟩ := by
  rw [scanSegment_packed hps ht, Bool.not_true, Bool.and_false, if_neg Bool.false_ne_true]

/-- In any other segment file a rest is an error. -/
theorem scanSegment_ok {ps : List Bytes} {tail : Bytes} (hps : ∀ p ∈ ps, Small p)
    (ht : Rest tail) {firstSeq : Nat} {r : ScannedSegment}
    (h : scanSegment stream firstSeq (packed ps ++ tail) false = .ok r) : tail = [] := by
  rw [scanSegment_packed hps ht] at h
  split at h
  · cases h
  · rename_i hnil
    simpa using hnil

/-! ## A directory -/

/-- What is read of a segment file goes into the scan. -/
def ScannedStream.push (r : ScannedStream) (firstSeq : Nat) (seg : ScannedSegment) :
    ScannedStream where
  segments := r.segments ++ [seg.index]
  files := r.files ++ [(firstSeq, seg.content)]
  nextSeq := firstSeq + seg.index.frameOffsets.length
  activeLen := seg.validLen

/-- A scan of files goes file by file. -/
theorem scanSegments_cons_ok {f : Nat × Bytes} {rest : Files} {r r' : ScannedStream} :
    scanSegments stream (f :: rest) r = .ok r' ↔ f.1 = r.nextSeq ∧
      ∃ seg, scanSegment stream f.1 f.2 rest.isEmpty = .ok seg ∧
        scanSegments stream rest (r.push f.1 seg) = .ok r' := by
  obtain ⟨firstSeq, data⟩ := f
  rw [scanSegments]
  split
  · rename_i hne
    exact ⟨fun h ↦ (nomatch h), fun h ↦ absurd h.1 hne⟩
  · rename_i heq
    cases hseg : scanSegment stream firstSeq data rest.isEmpty with
    | error e => exact ⟨fun h ↦ (nomatch h), fun ⟨_, _, h, _⟩ ↦ (nomatch h)⟩
    | ok seg =>
        refine ⟨fun h ↦ ⟨not_not.mp heq, seg, rfl, h⟩, ?_⟩
        rintro ⟨-, _, h, h'⟩
        cases h
        exact h'

/-- The scan of segment files that continue one another. -/
theorem scanSegments_layout {closed : List (List Bytes)} {last : List Bytes} {tail : Bytes}
    (hsmall : ∀ p ∈ closed.flatten ++ last, Small p) (ht : Rest tail) (r : ScannedStream) :
    scanSegments stream (layout r.nextSeq closed ++
        [(r.nextSeq + closed.flatten.length, packed last ++ tail)]) r = .ok {
      segments := r.segments ++ (index r.nextSeq closed ++
        [⟨r.nextSeq + closed.flatten.length, starts 0 last⟩])
      files := r.files ++ (layout r.nextSeq closed ++
        [(r.nextSeq + closed.flatten.length, packed last)])
      nextSeq := r.nextSeq + (closed.flatten ++ last).length
      activeLen := (packed last).length } := by
  induction closed generalizing r with
  | nil =>
      refine scanSegments_cons_ok.mpr ⟨rfl, _, scanSegment_last hsmall ht _, ?_⟩
      rw [scanSegments, ScannedStream.push, length_starts]
      rfl
  | cons seg closed ih =>
      rw [List.flatten_cons, List.append_assoc] at hsmall
      have hseg : ∀ p ∈ seg, Small p := fun p hp ↦ hsmall p (List.mem_append_left _ hp)
      refine scanSegments_cons_ok.mpr ⟨rfl, _, scanSegment_whole hseg _ _, ?_⟩
      have := ih (fun p hp ↦ hsmall p (List.mem_append_right _ hp))
        (r.push r.nextSeq ⟨⟨r.nextSeq, starts 0 seg⟩, (packed seg).length, packed seg⟩)
      simp only [ScannedStream.push, length_starts, List.flatten_cons, List.length_append,
        Nat.add_assoc, index, layout, List.append_assoc, List.cons_append, List.nil_append]
        at this ⊢
      exact this

/-- The scan of a directory succeeds on nothing else. -/
theorem scanSegments_ok {f : Nat × Bytes} {rest : Files} {r r' : ScannedStream}
    (hasc : (f :: rest).Pairwise fun a b ↦ a.1 < b.1)
    (h : scanSegments stream (f :: rest) r = .ok r') :
    ∃ closed last tail, f :: rest = layout r.nextSeq closed ++
        [(r.nextSeq + closed.flatten.length, packed last ++ tail)] ∧ Rest tail ∧
      (∀ seg ∈ closed, seg ≠ []) ∧ ∀ p ∈ closed.flatten ++ last, Small p := by
  induction rest generalizing f r with
  | nil =>
      obtain ⟨firstSeq, data⟩ := f
      obtain ⟨rfl, -⟩ := scanSegments_cons_ok.mp h
      obtain ⟨ps, tail, rfl, ht, hps⟩ := exists_packed data
      exact ⟨[], ps, tail, rfl, ht, fun seg hseg ↦ (nomatch hseg), hps⟩
  | cons g rest ih =>
      obtain ⟨firstSeq, data⟩ := f
      obtain ⟨rfl, seg, hseg, hrest⟩ := scanSegments_cons_ok.mp h
      obtain ⟨ps, tail, rfl, ht, hps⟩ := exists_packed data
      cases scanSegment_ok hps ht hseg
      rw [List.append_nil, List.isEmpty_cons, scanSegment_whole hps, Except.ok.injEq] at hseg
      subst hseg
      rw [List.pairwise_cons] at hasc
      obtain ⟨closed, last, tail', heq, ht', hne, hsmall⟩ := ih hasc.2 hrest
      simp only [ScannedStream.push, length_starts] at heq
      refine ⟨ps :: closed, last, tail', ?_, ht', ?_, ?_⟩
      · rw [heq, layout, List.flatten_cons, List.length_append, Nat.add_assoc, List.append_nil,
          List.cons_append]
      · intro s hs
        rcases List.mem_cons.mp hs with rfl | hs
        · -- an empty segment would share its name with the next
          rintro rfl
          have hkey := (scanSegments_cons_ok.mp hrest).1
          have hlt := hasc.1 g List.mem_cons_self
          rw [hkey] at hlt
          exact absurd hlt (Nat.lt_irrefl _)
        · exact hne s hs
      · intro p hp
        rw [List.flatten_cons, List.append_assoc] at hp
        rcases List.mem_append.mp hp with hp | hp
        · exact hps p hp
        · exact hsmall p hp

/-! ## The head -/

/-- The head that is computed is the head of the frames. -/
theorem computeHead_ok {files : Files} {segments : List SegmentIndex} {frames : List Bytes}
    (hfetch : ∀ seq (h : seq < frames.length),
      readFrameBytesAt files segments stream seq = .ok frames[seq]) {head : Option StreamHead}
    (h : computeHead prims stream files segments frames.length = .ok head) :
    head = headOf prims frames := by
  unfold computeHead at h
  rcases List.eq_nil_or_concat frames with rfl | ⟨init, p, hframes⟩
  · cases h
    rfl
  rw [List.concat_eq_append] at hframes
  have hlen : frames.length = init.length + 1 := by
    rw [hframes, List.length_append]
    rfl
  have hinit : init.length < frames.length := by omega
  have hp : frames[init.length] = p := by
    subst hframes
    exact List.getElem_concat_length rfl _
  rw [hlen, if_neg (Nat.succ_ne_zero _), Nat.add_sub_cancel] at h
  obtain ⟨bytes, hbytes, h₁⟩ := except_bind_eq_ok.mp h
  obtain ⟨stored, hdec, h₂⟩ := except_bind_eq_ok.mp h₁
  obtain ⟨_, _, h₃⟩ := except_bind_eq_ok.mp h₂
  obtain ⟨_, _, h₄⟩ := except_bind_eq_ok.mp h₃
  rw [hfetch _ (by omega), Except.ok.injEq, hp] at hbytes
  subst hbytes
  cases h₄
  rw [(decodeFrame_ok hdec).2.1, hframes, headOf_concat]

/-- The re-verification of the tail succeeds on a last frame that decodes and carries the
hash of the frame before it. -/
theorem computeHead_concat {files : Files} {segments : List SegmentIndex} {init : List Bytes}
    {p : Bytes} (hfetch : ∀ seq (h : seq < (init ++ [p]).length),
      readFrameBytesAt files segments stream seq = .ok (init ++ [p])[seq]) {stored : StoredRecord}
    (hdec : decodeFrame prims p stream init.length = .ok stored)
    (hlink : stored.prevHash = lastHash prims init) :
    computeHead prims stream files segments (init ++ [p]).length =
      .ok (headOf prims (init ++ [p])) := by
  have hlen : (init ++ [p]).length = init.length + 1 := by
    rw [List.length_append]
    rfl
  have hp := hfetch init.length (by omega)
  rw [List.getElem_concat_length rfl] at hp
  have hpred : predecessorHash prims files segments stream init.length = _ :=
    predecessorHash_eq hfetch (by omega)
  rw [List.take_left] at hpred
  unfold computeHead
  rw [hlen, if_neg (Nat.succ_ne_zero _), Nat.add_sub_cancel]
  refine except_bind_eq_ok.mpr ⟨p, hp, except_bind_eq_ok.mpr ⟨stored, hdec,
    except_bind_eq_ok.mpr ⟨_, hpred, except_bind_eq_ok.mpr
      ⟨(), checkBackLink_eq_ok.mpr hlink, ?_⟩⟩⟩⟩
  rw [headOf_concat, (decodeFrame_ok hdec).2.1]
  rfl

/-! ## A stream -/

theorem scanStream_nil : scanStream prims stream [] = .ok .blank [] := rfl

/-- The files and the index that a scan ends with. -/
theorem laid_scanned {closed : List (List Bytes)} {last : List Bytes}
    (hne : ∀ seg ∈ closed, seg ≠ []) (hsmall : ∀ p ∈ closed.flatten ++ last, Small p) :
    Laid (layout 0 closed ++ [(closed.flatten.length, packed last)])
      (index 0 closed ++ [⟨closed.flatten.length, starts 0 last⟩]) closed last [] where
  files_eq := by rw [List.append_nil]
  nonempty := hne
  small := hsmall
  index_eq := by
    refine ⟨index 0 closed, rfl, List.filter_eq_self.mpr ?_⟩
    -- closed segments are occupied
    have hocc : ∀ pos, ∀ seg ∈ index pos closed, seg.occupied = true := by
      induction closed with
      | nil => exact fun pos seg hseg ↦ nomatch hseg
      | cons s segs ih =>
          rintro pos seg (_ | ⟨_, hseg⟩)
          · obtain ⟨p, ps, rfl⟩ := List.exists_cons_of_ne_nil (hne s List.mem_cons_self)
            rfl
          · refine ih (fun s hs ↦ hne s (List.mem_cons_of_mem _ hs)) (fun p hp ↦ hsmall p ?_) _ _
              hseg
            rw [List.flatten_cons, List.append_assoc]
            exact List.mem_append_right _ hp
    exact hocc 0

/-- The state that a scan builds. -/
def scannedState (closed : List (List Bytes)) (last : List Bytes) (head : Option StreamHead) :
    StreamState where
  segments := index 0 closed ++ [⟨closed.flatten.length, starts 0 last⟩]
  nextSeq := (closed.flatten ++ last).length
  head := head
  writer := some ⟨closed.flatten.length, []⟩
  activeLen := (packed last).length
  wedged := false

/-- The scan of a directory whose segment files continue one another. -/
theorem scanStream_layout {files : Files} {closed : List (List Bytes)} {last : List Bytes}
    {tail : Bytes} (hsort : files.insertionSort (fun a b ↦ a.1 ≤ b.1) =
      layout 0 closed ++ [(closed.flatten.length, packed last ++ tail)])
    (hsmall : ∀ p ∈ closed.flatten ++ last, Small p) (ht : Rest tail) :
    scanStream prims stream files =
      match computeHead prims stream (layout 0 closed ++ [(closed.flatten.length, packed last)])
        (index 0 closed ++ [⟨closed.flatten.length, starts 0 last⟩])
        (closed.flatten ++ last).length with
      | .ok head => .ok (scannedState closed last head)
          (layout 0 closed ++ [(closed.flatten.length, packed last)])
      | .error e => .error e (layout 0 closed ++ [(closed.flatten.length, packed last)]) := by
  have hscan : scanSegments stream _ ⟨[], [], 0, 0⟩ = _ := scanSegments_layout hsmall ht _
  simp only [Nat.zero_add, List.nil_append] at hscan
  unfold scanStream
  rw [bind_def, look, hsort, hscan]
  dsimp only
  change (look _ >>= _) (layout 0 closed ++ [(closed.flatten.length, packed last)]) = _
  rw [bind_def, look]
  cases computeHead prims stream (layout 0 closed ++ [(closed.flatten.length, packed last)])
      (index 0 closed ++ [⟨closed.flatten.length, starts 0 last⟩])
      (closed.flatten ++ last).length with
  | error e => rfl
  | ok head =>
      change EStateM.Result.ok _ _ = EStateM.Result.ok _ _
      rw [List.getLast?_concat]
      rfl

/-- What a scan builds holds the frames it found. -/
theorem active_scanned {closed : List (List Bytes)} {last : List Bytes}
    (hne : ∀ seg ∈ closed, seg ≠ []) (hsmall : ∀ p ∈ closed.flatten ++ last, Small p) :
    Active prims ⟨layout 0 closed ++ [(closed.flatten.length, packed last)],
      scannedState closed last (headOf prims (closed.flatten ++ last))⟩ closed last [] :=
  { laid_scanned hne hsmall with
    nextSeq_eq := rfl
    head_eq := rfl
    activeLen_eq := rfl
    writer_eq := ⟨[], rfl, fun _ ↦ ⟨rfl, rfl⟩⟩ }

/-- Names of files in ascending order. -/
theorem pairwise_lt_insertionSort {files : Files} (h : (files.map Prod.fst).Nodup) :
    (files.insertionSort fun a b ↦ a.1 ≤ b.1).Pairwise fun a b ↦ a.1 < b.1 := by
  have : Std.Total fun a b : Nat × Bytes ↦ a.1 ≤ b.1 := ⟨fun a b ↦ Nat.le_total a.1 b.1⟩
  have : IsTrans (Nat × Bytes) fun a b ↦ a.1 ≤ b.1 := ⟨fun a b c ↦ Nat.le_trans⟩
  have hsorted := List.pairwise_insertionSort (fun a b : Nat × Bytes ↦ a.1 ≤ b.1) files
  have hnames : ((files.insertionSort fun a b ↦ a.1 ≤ b.1).map Prod.fst).Nodup :=
    ((List.perm_insertionSort _ files).map Prod.fst).nodup_iff.mpr h
  rw [List.Nodup, List.pairwise_map] at hnames
  exact (hsorted.and hnames).imp fun h ↦ Nat.lt_of_le_of_ne h.1 h.2

/-- Whatever directory is scanned with success, the stream then holds frames. -/
theorem scanStream_ok {files files' : Files} {state : StreamState}
    (hnames : (files.map Prod.fst).Nodup) (h : scanStream prims stream files = .ok state files') :
    ∃ frames, Holds prims ⟨files', state⟩ frames ∧ state.wedged = false := by
  have hasc := pairwise_lt_insertionSort hnames
  cases hsort : files.insertionSort fun a b ↦ a.1 ≤ b.1 with
  | nil =>
      have hnil : files = [] := by
        rw [← List.length_eq_zero_iff, ← List.length_insertionSort (fun a b ↦ a.1 ≤ b.1), hsort]
        rfl
      subst hnil
      cases h
      exact ⟨[], Or.inl ⟨rfl, rfl⟩, rfl⟩
  | cons f rest =>
      rw [hsort] at hasc
      -- the scan got as far as computing the head
      obtain ⟨r, _, hr, -⟩ := bind_eq_ok.mp h
      have hr := (look_eq_ok.mp hr).1
      rw [hsort] at hr
      obtain ⟨closed, last, tail, heq, ht, hne, hsmall⟩ := scanSegments_ok hasc hr
      rw [Nat.zero_add] at heq
      rw [scanStream_layout (hsort.trans heq) hsmall ht] at h
      split at h
      · rename_i head hhead
        cases h
        cases computeHead_ok (fun _ hs ↦ (laid_scanned hne hsmall).fetch stream hs) hhead
        exact ⟨_, Or.inr ⟨closed, last, [], active_scanned hne hsmall, rfl⟩, rfl⟩
      · cases h

/-- A stream is found again as it lies on disk, without a rest behind its last segment, if
its last frame passes the re-verification. -/
theorem scanStream_holds {files : Files} {closed : List (List Bytes)} {last : List Bytes}
    {tail : Bytes} (heq : files = layout 0 closed ++ [(closed.flatten.length, packed last ++ tail)])
    (hne : ∀ seg ∈ closed, seg ≠ []) (hsmall : ∀ p ∈ closed.flatten ++ last, Small p)
    (ht : Rest tail) (htail : ∀ init p, closed.flatten ++ last = init ++ [p] →
      ∃ stored, decodeFrame prims p stream init.length = .ok stored ∧
        stored.prevHash = lastHash prims init) :
    ∃ state files', scanStream prims stream files = .ok state files' ∧
      Holds prims ⟨files', state⟩ (closed.flatten ++ last) ∧ state.wedged = false := by
  have hsort : files.insertionSort (fun a b ↦ a.1 ≤ b.1) =
      layout 0 closed ++ [(closed.flatten.length, packed last ++ tail)] := by
    rw [heq]
    refine List.Pairwise.insertionSort_eq (List.Pairwise.imp (fun h ↦ Nat.le_of_lt h)
      (List.pairwise_append.mpr ⟨layout_pairwise hne, List.pairwise_singleton _ _, ?_⟩))
    intro f hf g hg
    rw [List.mem_singleton.mp hg]
    have := layout_key_lt hne hf
    change f.1 < closed.flatten.length
    omega
  have hlaid := laid_scanned hne hsmall
  have hhead : computeHead prims stream
      (layout 0 closed ++ [(closed.flatten.length, packed last)])
      (index 0 closed ++ [⟨closed.flatten.length, starts 0 last⟩])
      (closed.flatten ++ last).length = .ok (headOf prims (closed.flatten ++ last)) := by
    have hfetch := fun seq (hs : seq < (closed.flatten ++ last).length) ↦ hlaid.fetch stream hs
    rcases List.eq_nil_or_concat (closed.flatten ++ last) with hnil | ⟨init, p, hframes⟩
    · rw [hnil]
      rfl
    · rw [List.concat_eq_append] at hframes
      obtain ⟨stored, hdec, hlink⟩ := htail init p hframes
      simp only [hframes] at hfetch ⊢
      exact computeHead_concat hfetch hdec hlink
  refine ⟨_, _, ?_, Or.inr ⟨closed, last, [], active_scanned hne hsmall, rfl⟩, rfl⟩
  rw [scanStream_layout hsort hsmall ht, hhead]

end Koalisi.Persistence
