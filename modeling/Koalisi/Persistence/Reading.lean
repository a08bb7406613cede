import Koalisi.Persistence.Appends

/-!
# What reads and checks see of a stream

A read, a check of the chain and the head re-verification on opening look at the
disk only through the frames of the positions they visit.  So two streams that
hold the same frames cannot be told apart by them (`Holds.readFrom_congr`,
`Holds.verify_congr`), and a range passes the check exactly if its records decode
and each carries the hash of the one before it (`verify_eq_ok_iff`).
-/

namespace Koalisi.Persistence

open Koalisi.Lib.Framing Koalisi.Lib.Fallible Koalisi.Lib.HashChain

variable {prims : Primitives} {stream : StreamId} {v v' : Volume} {frames : List Bytes}

/-- Each record carries the hash of the one before it, the first one `prev`. -/
abbrev Chained : Option RecordHash → List StoredRecord → Prop :=
  Linked StoredRecord.prevHash StoredRecord.hash

/-- The hash of the last record of a chain. -/
abbrev chainTip : Option RecordHash → List StoredRecord → Option RecordHash :=
  tip StoredRecord.hash

/-- The check of consecutive positions succeeds on records that decode and are chained. -/
theorem foldlM_checkAt {l : List Nat} {prev out : Option RecordHash} :
    l.foldlM (v.checkAt prims stream) prev = .ok out ↔
      ∃ stored, l.mapM (v.recordAt prims stream) = .ok stored ∧ Chained prev stored ∧
        chainTip prev stored = out := by
  induction l generalizing prev with
  | nil =>
      rw [List.foldlM_nil, List.mapM_nil]
      constructor
      · intro h
        cases h
        exact ⟨[], rfl, trivial, rfl⟩
      · rintro ⟨stored, h, -, rfl⟩
        cases h
        rfl
  | cons seq l ih =>
      rw [List.foldlM_cons, List.mapM_cons]
      constructor
      · intro h
        obtain ⟨next, hcheck, h⟩ := except_bind_eq_ok.mp h
        obtain ⟨stored, hstored, hcheck⟩ := except_bind_eq_ok.mp hcheck
        obtain ⟨_, hlink, hcheck⟩ := except_bind_eq_ok.mp hcheck
        cases hcheck
        obtain ⟨rest, hrest, hchain, htip⟩ := ih.mp h
        refine ⟨stored :: rest, ?_, ⟨checkBackLink_eq_ok.mp hlink, hchain⟩, htip⟩
        exact except_bind_eq_ok.mpr ⟨stored, hstored, except_bind_eq_ok.mpr ⟨rest, hrest, rfl⟩⟩
      · rintro ⟨_, h, hchain, htip⟩
        obtain ⟨stored, hstored, h⟩ := except_bind_eq_ok.mp h
        obtain ⟨rest, hrest, h⟩ := except_bind_eq_ok.mp h
        cases h
        obtain ⟨hlink, hchain⟩ := hchain
        refine except_bind_eq_ok.mpr ⟨some stored.hash, ?_, ih.mpr ⟨rest, hrest, hchain, htip⟩⟩
        exact except_bind_eq_ok.mpr ⟨stored, hstored, except_bind_eq_ok.mpr
          ⟨(), checkBackLink_eq_ok.mpr hlink, rfl⟩⟩

/-- The records of positions `fromSeq` up to `toSeq`. -/
def recordsBetween (prims : Primitives) (stream : StreamId) (v : Volume) (fromSeq toSeq : Nat) :
    Except PersistenceError (List StoredRecord) :=
  (List.range' fromSeq (toSeq + 1 - fromSeq)).mapM (v.recordAt prims stream)

/-- A range within the stream passes the check exactly if its records decode and are
chained to the frame before them. -/
theorem verify_eq_ok_iff {fromSeq toSeq : Nat} (hft : fromSeq ≤ toSeq)
    (hto : toSeq < v.state.nextSeq) :
    v.verify prims stream fromSeq toSeq = .ok () ↔
      ∃ prev stored, predecessorHash prims v.files v.state.segments stream fromSeq = .ok prev ∧
        recordsBetween prims stream v fromSeq toSeq = .ok stored ∧ Chained prev stored := by
  unfold Volume.verify recordsBetween
  dsimp only
  rw [if_neg (by omega), Nat.min_eq_left (by omega), if_neg (by omega)]
  constructor
  · intro h
    obtain ⟨prev, hprev, h⟩ := except_bind_eq_ok.mp h
    obtain ⟨out, hfold, -⟩ := except_bind_eq_ok.mp h
    obtain ⟨stored, hstored, hchain, -⟩ := foldlM_checkAt.mp hfold
    exact ⟨prev, stored, hprev, hstored, hchain⟩
  · rintro ⟨prev, stored, hprev, hstored, hchain⟩
    exact except_bind_eq_ok.mpr ⟨prev, hprev, except_bind_eq_ok.mpr
      ⟨_, foldlM_checkAt.mpr ⟨stored, hstored, hchain, rfl⟩, rfl⟩⟩

/-- What a read returns, in terms of the records of the positions it visits. -/
theorem readFrom_of_lt {fromSeq limit : Nat} (hl : 0 < limit) (hf : fromSeq < v.state.nextSeq) :
    v.readFrom prims stream fromSeq limit =
      recordsBetween prims stream v fromSeq
        (min (fromSeq + (limit - 1)) (v.state.nextSeq - 1)) := by
  unfold Volume.readFrom recordsBetween
  dsimp only
  rw [if_neg (by omega), if_neg (by omega), if_neg (by omega)]

theorem readFrom_of_ge {fromSeq limit : Nat} (h : limit = 0 ∨ v.state.nextSeq ≤ fromSeq) :
    v.readFrom prims stream fromSeq limit = .ok [] := by
  unfold Volume.readFrom
  dsimp only
  split
  · rfl
  split
  · rfl
  rw [if_pos (by omega)]

/-- Positions whose records are known are read as a slice of these. -/
theorem recordsBetween_eq_slice {records : List StoredRecord}
    (h : ∀ i (hi : i < records.length), v.recordAt prims stream i = .ok records[i])
    {fromSeq toSeq : Nat} (hto : toSeq < records.length) :
    recordsBetween prims stream v fromSeq toSeq =
      .ok ((records.drop fromSeq).take (toSeq + 1 - fromSeq)) := by
  refine mapM_range'_eq_ok_iff.mpr ⟨?_, fun i hi ↦ ?_⟩
  · rw [List.length_take, List.length_drop]
    omega
  · rw [List.length_take, List.length_drop] at hi
    rw [List.getElem_take, List.getElem_drop]
    exact h _ (by omega)

/-- A stream whose records are known is read as a slice of these. -/
theorem readFrom_eq_slice {records : List StoredRecord} (hn : v.state.nextSeq = records.length)
    (h : ∀ i (hi : i < records.length), v.recordAt prims stream i = .ok records[i])
    (fromSeq limit : Nat) :
    v.readFrom prims stream fromSeq limit = .ok ((records.drop fromSeq).take limit) := by
  by_cases hout : limit = 0 ∨ records.length ≤ fromSeq
  · rw [readFrom_of_ge (by rw [hn]; exact hout)]
    rcases hout with rfl | hout
    · rw [List.take_zero]
    · rw [List.drop_eq_nil_of_le hout, List.take_nil]
  · rw [readFrom_of_lt (by omega) (by omega), recordsBetween_eq_slice h (by omega), hn,
      Except.ok.injEq]
    -- the last position is cut to the head, as `take` stops at the end
    rcases Nat.le_total (fromSeq + (limit - 1)) (records.length - 1) with hle | hle
    · rw [Nat.min_eq_left hle]
      congr 1
      omega
    · rw [Nat.min_eq_right hle, List.take_of_length_le, List.take_of_length_le] <;>
      · rw [List.length_drop]
        omega

/-! ## Reading a stream that holds frames -/

theorem Holds.recordAt_eq (h : Holds prims v frames) {seq : Nat} (hseq : seq < frames.length) :
    v.recordAt prims stream seq = decodeFrame prims frames[seq] stream seq := by
  rw [Volume.recordAt, h.fetch stream hseq]
  rfl

/-- The hash of the record before a position. -/
theorem predecessorHash_eq {files : Files} {segments : List SegmentIndex}
    (hfetch : ∀ seq (h : seq < frames.length),
      readFrameBytesAt files segments stream seq = .ok frames[seq])
    {seq : Nat} (hseq : seq ≤ frames.length) :
    predecessorHash prims files segments stream seq = .ok (lastHash prims (frames.take seq)) := by
  unfold predecessorHash
  cases seq with
  | zero => rfl
  | succ seq =>
      rw [if_neg (Nat.succ_ne_zero seq), Nat.add_sub_cancel, hfetch seq hseq, lastHash,
        List.take_succ_eq_append_getElem hseq, List.getLast?_concat]
      rfl

theorem recordsBetween_congr (h : Holds prims v frames) (h' : Holds prims v' frames)
    {fromSeq toSeq : Nat} (hto : toSeq < frames.length) :
    recordsBetween prims stream v fromSeq toSeq = recordsBetween prims stream v' fromSeq toSeq := by
  refine mapM_congr fun seq hseq ↦ ?_
  rw [List.mem_range'_1] at hseq
  rw [h.recordAt_eq (by omega), h'.recordAt_eq (by omega)]

/-- Reads see the frames only. -/
theorem Holds.readFrom_congr (h : Holds prims v frames) (h' : Holds prims v' frames)
    (fromSeq limit : Nat) :
    v.readFrom prims stream fromSeq limit = v'.readFrom prims stream fromSeq limit := by
  have hn := h.nextSeq_eq
  have hn' := h'.nextSeq_eq
  by_cases hout : limit = 0 ∨ frames.length ≤ fromSeq
  · rw [readFrom_of_ge (by rw [hn]; exact hout), readFrom_of_ge (by rw [hn']; exact hout)]
  · rw [readFrom_of_lt (by omega) (by omega), readFrom_of_lt (by omega) (by omega), hn, hn']
    exact recordsBetween_congr h h' (by omega)

/-- Checks see the frames only. -/
theorem Holds.verify_congr (h : Holds prims v frames) (h' : Holds prims v' frames)
    (fromSeq toSeq : Nat) :
    v.verify prims stream fromSeq toSeq = v'.verify prims stream fromSeq toSeq := by
  have hn := h.nextSeq_eq
  have hn' := h'.nextSeq_eq
  -- the loops agree at every position they visit
  have hfold : ∀ last prev, last < frames.length →
      (List.range' fromSeq (last + 1 - fromSeq)).foldlM (v.checkAt prims stream) prev =
        (List.range' fromSeq (last + 1 - fromSeq)).foldlM (v'.checkAt prims stream) prev := by
    intro last prev hlast
    refine foldlM_congr (fun seq hseq b ↦ ?_) prev
    rw [List.mem_range'_1] at hseq
    unfold Volume.checkAt
    rw [h.recordAt_eq (by omega), h'.recordAt_eq (by omega)]
  unfold Volume.verify
  dsimp only
  rw [hn, hn']
  split
  · rfl
  split
  · rfl
  rw [predecessorHash_eq (fun _ hs ↦ h.fetch stream hs) (by omega),
    predecessorHash_eq (fun _ hs ↦ h'.fetch stream hs) (by omega)]
  exact congrArg (fun x : Except PersistenceError (Option RecordHash) ↦
    (do let _ ← x; return () : Except PersistenceError Unit)) (hfold _ _ (by omega))

end Koalisi.Persistence
