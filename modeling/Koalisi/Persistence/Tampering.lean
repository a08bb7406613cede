import Koalisi.Persistence.Failures

/-!
# What a check of the chain covers

A check of a whole stream pins the first record to no predecessor and every other
record to the frame before it.  Two streams that pass it and whose last frames have
the same hash are therefore the same stream (`tamper_evident`).

The last frame itself has no successor, and the check does not compare it with the
head that an open store remembers.  After an edit on disk that the check accepts,
the records below the head are the ones that were appended exactly if the last frame
has the back-link it was written with, and all of them are exactly if it has the hash
that the store remembers (`verify_covers`).
-/

namespace Koalisi.Persistence

open Koalisi.Lib.Framing Koalisi.Lib.Fallible Koalisi.Lib.HashChain

variable {prims : Primitives} {stream : StreamId}

/-! ## A stream that passed the check -/

/-- A stream of these frames, which decode to these records, each carrying the hash of
the frame before it. -/
structure Checked (prims : Primitives) (stream : StreamId) (v : Volume) (frames : List Bytes)
    (records : List StoredRecord) : Prop where
  nextSeq_eq : v.state.nextSeq = frames.length
  length_eq : records.length = frames.length
  fetch : ∀ i (h : i < frames.length),
    readFrameBytesAt v.files v.state.segments stream i = .ok frames[i]
  recordAt : ∀ i (h : i < records.length), v.recordAt prims stream i = .ok records[i]
  chained : Chained none records

variable {v v' : Volume} {frames frames' : List Bytes} {records records' : List StoredRecord}

/-- A check of a whole stream has seen all its frames. -/
theorem checked_of_verify {n : Nat} (hn : v.state.nextSeq = n + 1)
    (h : v.verify prims stream 0 n = .ok ()) :
    ∃ frames records, Checked prims stream v frames records := by
  obtain ⟨prev, records, hprev, hrecords, hchain⟩ :=
    (verify_eq_ok_iff (Nat.zero_le n) (by omega)).mp h
  cases hprev
  obtain ⟨hlen, hrecords⟩ := mapM_range'_eq_ok_iff.mp hrecords
  -- a record was decoded from the frame at its position
  have hfetch : ∀ i : Fin records.length, ∃ bytes,
      readFrameBytesAt v.files v.state.segments stream i = .ok bytes := by
    intro i
    have hi := hrecords i i.isLt
    rw [Nat.zero_add] at hi
    obtain ⟨bytes, hbytes, -⟩ := except_bind_eq_ok.mp hi
    exact ⟨bytes, hbytes⟩
  choose frame hframe using hfetch
  refine ⟨List.ofFn frame, records, ?_, ?_, fun i hi ↦ ?_, fun i hi ↦ ?_, hchain⟩
  · rw [List.length_ofFn]
    omega
  · rw [List.length_ofFn]
  · rw [List.getElem_ofFn]
    exact hframe ⟨i, by rwa [List.length_ofFn] at hi⟩
  · have := hrecords i hi
    rw [Nat.zero_add] at this
    exact this

namespace Checked

/-- The record at a position is what its frame decodes to. -/
theorem decode (h : Checked prims stream v frames records) {i : Nat} (hi : i < frames.length)
    (hi' : i < records.length) : decodeFrame prims frames[i] stream i = .ok records[i] := by
  have hrec := h.recordAt i hi'
  rw [Volume.recordAt, h.fetch i hi] at hrec
  exact hrec

theorem map_hash (h : Checked prims stream v frames records) :
    frames.map (hashFrame prims) = records.map StoredRecord.hash := by
  refine List.ext_getElem ?_ fun i hi hi' ↦ ?_
  · rw [List.length_map, List.length_map, h.length_eq]
  · rw [List.length_map] at hi hi'
    rw [List.getElem_map, List.getElem_map, (decodeFrame_ok (h.decode hi hi')).2.1]

theorem map_link (h : Checked prims stream v frames records) :
    frames.map (frameLink prims) = records.map StoredRecord.prevHash := by
  refine List.ext_getElem ?_ fun i hi hi' ↦ ?_
  · rw [List.length_map, List.length_map, h.length_eq]
  · rw [List.length_map] at hi hi'
    rw [List.getElem_map, List.getElem_map, (decodeFrame_ok (h.decode hi hi')).2.2]

/-- The frames themselves are a chain. -/
theorem linked (h : Checked prims stream v frames records) :
    Linked (frameLink prims) (hashFrame prims) none frames :=
  (linked_congr h.map_link h.map_hash).mpr h.chained

/-- Reads return slices of the records. -/
theorem readFrom (h : Checked prims stream v frames records) (fromSeq limit : Nat) :
    v.readFrom prims stream fromSeq limit = .ok ((records.drop fromSeq).take limit) :=
  readFrom_eq_slice (h.nextSeq_eq.trans h.length_eq.symm) h.recordAt fromSeq limit

/-- The frames determine the records. -/
theorem records_eq (h : Checked prims stream v frames records)
    (h' : Checked prims stream v' frames' records') {n : Nat}
    (hf : frames.take n = frames'.take n) : records.take n = records'.take n := by
  have hlen : (records.take n).length = (records'.take n).length := by
    rw [List.length_take, List.length_take, h.length_eq, h'.length_eq, ← List.length_take,
      ← List.length_take, hf]
  refine List.ext_getElem hlen fun i hi hi' ↦ ?_
  rw [List.length_take, lt_min_iff] at hi hi'
  have hframes : i < frames.length := h.length_eq ▸ hi.2
  have hframes' : i < frames'.length := h'.length_eq ▸ hi'.2
  have hframe : frames[i] = frames'[i] := by
    have : (frames.take n)[i]? = (frames'.take n)[i]? := by rw [hf]
    rw [List.getElem?_take_of_lt hi.1, List.getElem?_take_of_lt hi.1, List.getElem?_eq_getElem,
      List.getElem?_eq_getElem, Option.some.injEq] at this
    exact this
  have hdec := h.decode hframes hi.2
  rw [hframe, h'.decode hframes' hi'.2, Except.ok.injEq] at hdec
  rw [List.getElem_take, List.getElem_take, hdec]

/-- The hash that the next record has to carry, seen in the records. -/
theorem tip_take (h : Checked prims stream v frames records) (n : Nat) :
    tip (hashFrame prims) none (frames.take n) = chainTip none (records.take n) := by
  rw [tip_eq_getLast?, ← List.getLast?_map, List.map_take, h.map_hash, ← List.map_take,
    List.getLast?_map, ← tip_eq_getLast?]

/-- A hash commits to all the frames up to the one it is of. -/
theorem take_eq (h : Checked prims stream v frames records)
    (h' : Checked prims stream v' frames' records') {n : Nat}
    (htip : chainTip none (records.take n) = chainTip none (records'.take n))
    (hinj : Set.InjOn prims.sha256 {bytes | bytes ∈ frames ∨ bytes ∈ frames'}) :
    frames.take n = frames'.take n := by
  have hx := h.linked
  have hy := h'.linked
  rw [← List.take_append_drop n frames] at hx
  rw [← List.take_append_drop n frames'] at hy
  rw [← h.tip_take, ← h'.tip_take] at htip
  refine (linked_append.mp hx).1.eq_of_tip_eq (linked_append.mp hy).1 htip ?_
  intro a ha b hb hab
  refine hinj ?_ ?_ (congrArg RecordHash.digest hab)
  · exact ha.imp List.mem_of_mem_take List.mem_of_mem_take
  · exact hb.imp List.mem_of_mem_take List.mem_of_mem_take

/-- The back-link of a record is the hash of the records below it. -/
theorem prevHash_eq (h : Checked prims stream v frames records) {n : Nat}
    (hn : n < records.length) : records[n].prevHash = chainTip none (records.take n) := by
  have hchain := h.chained
  rw [← List.take_append_drop n records, List.drop_eq_getElem_cons hn] at hchain
  exact (linked_append.mp hchain).2.1

/-- The records below a position are the same exactly if its back-link is. -/
theorem take_eq_iff_prevHash (h : Checked prims stream v frames records)
    (h' : Checked prims stream v' frames' records')
    (hinj : Set.InjOn prims.sha256 {bytes | bytes ∈ frames ∨ bytes ∈ frames'}) {n : Nat}
    (hn : n < records.length) (hn' : n < records'.length) :
    records.take n = records'.take n ↔ records[n].prevHash = records'[n].prevHash := by
  rw [h.prevHash_eq hn, h'.prevHash_eq hn']
  exact ⟨congrArg _, fun htip ↦ h.records_eq h' (h.take_eq h' htip hinj)⟩

/-- The records up to a position are the same exactly if its hash is. -/
theorem take_succ_eq_iff_hash (h : Checked prims stream v frames records)
    (h' : Checked prims stream v' frames' records')
    (hinj : Set.InjOn prims.sha256 {bytes | bytes ∈ frames ∨ bytes ∈ frames'}) {n : Nat}
    (hn : n < records.length) (hn' : n < records'.length) :
    records.take (n + 1) = records'.take (n + 1) ↔ records[n].hash = records'[n].hash := by
  have htip : ∀ {l : List StoredRecord} (hl : n < l.length),
      chainTip none (l.take (n + 1)) = some l[n].hash := by
    intro l hl
    rw [List.take_succ_eq_append_getElem hl, chainTip, tip_concat]
  rw [← Option.some_inj (a := records[n].hash), ← htip hn, ← htip hn']
  exact ⟨congrArg _, fun htip ↦ h.records_eq h' (h.take_eq h' htip hinj)⟩

/-- Equal frames are read alike. -/
theorem readFrom_congr (h : Checked prims stream v frames records)
    (h' : Checked prims stream v' frames' records') (hf : frames = frames')
    (fromSeq limit : Nat) :
    v.readFrom prims stream fromSeq limit = v'.readFrom prims stream fromSeq limit := by
  have hr := h.records_eq h' (congrArg (List.take frames.length) hf)
  rw [List.take_of_length_le (Nat.le_of_eq h.length_eq),
    List.take_of_length_le (Nat.le_of_eq (h'.length_eq.trans (congrArg List.length hf.symm)))] at hr
  rw [h.readFrom, h'.readFrom, hr]

end Checked

/-! ## Two streams with one head -/

/-- The content of a stream, as the store finds it on disk, ends in `head` and passes the
check up to it. -/
structure Presents (prims : Primitives) (store : FileEventStore) (stream : StreamId)
    (head : StreamHead) : Prop where
  nextSeq_eq : (store.streams stream).nextSeq = head.seq + 1
  hash_eq : ∃ bytes, readFrameBytesAt (store.volume stream).files
    (store.volume stream).state.segments stream head.seq = .ok bytes ∧
      hashFrame prims bytes = head.hash
  verify : store.verify prims stream 0 head.seq = .ok ()

namespace Presents

variable {store store' : FileEventStore} {head : StreamHead}

/-- A stream that holds frames presents its head, if the check passes. -/
theorem of_holds {frames : List Bytes} (h : Holds prims (store.volume stream) frames)
    (hhead : store.head stream = some head)
    (hverify : store.verify prims stream 0 head.seq = .ok ()) :
    Presents prims store stream head := by
  have hlast := h.head_eq.symm.trans hhead
  rcases List.eq_nil_or_concat frames with rfl | ⟨init, p, rfl⟩
  · cases hlast
  · rw [List.concat_eq_append] at *
    rw [headOf_concat, Option.some.injEq] at hlast
    subst hlast
    have hlen : init.length < (init ++ [p]).length := by
      rw [List.length_append]
      exact Nat.lt_succ_self _
    refine ⟨h.nextSeq_eq.trans List.length_append, ⟨p, ?_, rfl⟩, hverify⟩
    rw [h.fetch stream hlen, List.getElem_concat_length rfl]

/-- So does every stream of a store that can come about. -/
theorem of_reachable (h : FileEventStore.Reachable prims store)
    (hhead : store.head stream = some head)
    (hverify : store.verify prims stream 0 head.seq = .ok ()) :
    Presents prims store stream head :=
  have ⟨_, hholds⟩ := h.holds stream
  of_holds hholds hhead hverify

/-- The chain that is presented ends in the head's hash. -/
theorem checked (h : Presents prims store stream head) :
    ∃ frames records, Checked prims stream (store.volume stream) frames records ∧
      frames.length = head.seq + 1 ∧
      tip (hashFrame prims) none frames = some head.hash := by
  obtain ⟨frames, records, hc⟩ := checked_of_verify h.nextSeq_eq h.verify
  have hlen : frames.length = head.seq + 1 := hc.nextSeq_eq.symm.trans h.nextSeq_eq
  refine ⟨frames, records, hc, hlen, ?_⟩
  obtain ⟨bytes, hbytes, hhash⟩ := h.hash_eq
  rw [hc.fetch head.seq (by omega), Except.ok.injEq] at hbytes
  rw [tip_eq_getLast?, List.getLast?_eq_getElem?, hlen, Nat.add_sub_cancel,
    List.getElem?_eq_getElem (by omega), hbytes, Option.map_some, hhash]

end Presents

/-- After any run of a client a store presents its heads. -/
theorem Keeps.presents (hp : prims.RoundTrips) {store : FileEventStore} {ledgers : Ledgers prims}
    (h : Keeps store ledgers) {head : StreamHead} (hhead : store.head stream = some head) :
    Presents prims store stream head := by
  have hlast := (h stream).1.head_eq.symm.trans hhead
  rw [← Ledger.head, Ledger.head_eq, Option.map_eq_some_iff] at hlast
  obtain ⟨last, hlast, rfl⟩ := hlast
  have hseq := Ledger.getLast?_stored_seq _ hlast
  exact .of_holds (h stream).1 hhead (Ledger.verify_eq hp (h stream).1 stream (Nat.zero_le _)
    (Nat.lt_of_succ_le (Nat.le_of_eq hseq)))

/-- Tamper evidence: two contents that pass the check of the whole stream and have the
same head, sequence number and hash, have the same frames and the same records at every
sequence number.  Only the frames that occur need distinct digests. -/
theorem tamper_evident {store store' : FileEventStore} {head : StreamHead}
    (h : Presents prims store stream head) (h' : Presents prims store' stream head)
    (hinj : Set.InjOn prims.sha256 {bytes | ∃ seq ≤ head.seq,
      readFrameBytesAt (store.volume stream).files (store.volume stream).state.segments
        stream seq = .ok bytes ∨
      readFrameBytesAt (store'.volume stream).files (store'.volume stream).state.segments
        stream seq = .ok bytes}) :
    (∀ seq ≤ head.seq, ∃ bytes record,
      readFrameBytesAt (store.volume stream).files (store.volume stream).state.segments
        stream seq = .ok bytes ∧
      readFrameBytesAt (store'.volume stream).files (store'.volume stream).state.segments
        stream seq = .ok bytes ∧
      (store.volume stream).recordAt prims stream seq = .ok record ∧
      (store'.volume stream).recordAt prims stream seq = .ok record) ∧
    ∀ fromSeq limit, store.readFrom prims stream fromSeq limit =
      store'.readFrom prims stream fromSeq limit := by
  obtain ⟨frames, records, hc, hlen, htip⟩ := h.checked
  obtain ⟨frames', records', hc', hlen', htip'⟩ := h'.checked
  have hfr : frames = frames' := by
    refine hc.linked.eq_of_tip_eq hc'.linked (htip.trans htip'.symm) ?_
    intro a ha b hb hab
    -- the frames of both are among those whose digests are distinct
    have hmem : ∀ bytes, bytes ∈ frames ∨ bytes ∈ frames' → ∃ seq ≤ head.seq,
        readFrameBytesAt (store.volume stream).files (store.volume stream).state.segments
          stream seq = .ok bytes ∨
        readFrameBytesAt (store'.volume stream).files (store'.volume stream).state.segments
          stream seq = .ok bytes := by
      rintro bytes (hb | hb)
      · obtain ⟨i, hi, rfl⟩ := List.getElem_of_mem hb
        exact ⟨i, Nat.le_of_lt_succ (hi.trans_eq hlen), Or.inl (hc.fetch i hi)⟩
      · obtain ⟨i, hi, rfl⟩ := List.getElem_of_mem hb
        exact ⟨i, Nat.le_of_lt_succ (hi.trans_eq hlen'), Or.inr (hc'.fetch i hi)⟩
    exact hinj (hmem a ha) (hmem b hb) (congrArg RecordHash.digest hab)
  subst hfr
  refine ⟨fun seq hseq ↦ ?_, hc.readFrom_congr hc' rfl⟩
  have hi : seq < frames.length := hlen ▸ Nat.lt_succ_of_le hseq
  have hr : seq < records.length := hc.length_eq ▸ hi
  have hr' : seq < records'.length := hc'.length_eq ▸ hi
  refine ⟨frames[seq], records[seq], hc.fetch seq hi, hc'.fetch seq hi, hc.recordAt seq hr, ?_⟩
  have hdec := hc.decode hi hr
  rw [hc'.decode hi hr'] at hdec
  rw [hc'.recordAt seq hr', hdec]

/-- The same two records in one segment file and in two, with the store opened again. -/
theorem tamper_evident_sample :
    ∃ store store',
      FileEventStore.session Sample.codec ⟨5⟩ [.append .topology Sample.firstRecord,
        .append .topology Sample.secondRecord] =
        some ([.appended (.ok ⟨0, ⟨.sha256, Sample.firstDigest⟩⟩),
          .appended (.ok ⟨1, ⟨.sha256, Sample.secondDigest⟩⟩)], store) ∧
      FileEventStore.session Sample.codec ⟨1⟩ [.append .topology Sample.firstRecord, .reopen ⟨0⟩,
        .append .topology Sample.secondRecord] =
        some ([.appended (.ok ⟨0, ⟨.sha256, Sample.firstDigest⟩⟩), .opened,
          .appended (.ok ⟨1, ⟨.sha256, Sample.secondDigest⟩⟩)], store') ∧
      ∀ fromSeq limit, store.readFrom Sample.codec .topology fromSeq limit =
        store'.readFrom Sample.codec .topology fromSeq limit := by
  obtain ⟨store, hrun, hkeeps⟩ := exists_session Sample.roundTrips ⟨5⟩
    [.append .topology Sample.firstRecord, .append .topology Sample.secondRecord]
  obtain ⟨store', hrun', hkeeps'⟩ := exists_session Sample.roundTrips ⟨1⟩
    [.append .topology Sample.firstRecord, .reopen ⟨0⟩, .append .topology Sample.secondRecord]
  have hholds := (hkeeps .topology).1
  have hholds' := (hkeeps' .topology).1
  have hframes : ((Ledgers.run [.append .topology Sample.firstRecord,
      .append .topology Sample.secondRecord] (Ledgers.empty Sample.codec)).2 .topology).frames =
      [Sample.firstFrame, Sample.secondFrame] := by decide +kernel
  have hframes' : ((Ledgers.run [.append .topology Sample.firstRecord, .reopen ⟨0⟩,
      .append .topology Sample.secondRecord] (Ledgers.empty Sample.codec)).2 .topology).frames =
      [Sample.firstFrame, Sample.secondFrame] := by decide +kernel
  rw [hframes] at hholds
  rw [hframes'] at hholds'
  have hhead : headOf Sample.codec [Sample.firstFrame, Sample.secondFrame] =
      some ⟨1, ⟨.sha256, Sample.secondDigest⟩⟩ := by decide +kernel
  have hresp : (Ledgers.run [.append .topology Sample.firstRecord,
      .append .topology Sample.secondRecord] (Ledgers.empty Sample.codec)).1 =
        [.appended (.ok ⟨0, ⟨.sha256, Sample.firstDigest⟩⟩),
          .appended (.ok ⟨1, ⟨.sha256, Sample.secondDigest⟩⟩)] := by decide +kernel
  have hresp' : (Ledgers.run [.append .topology Sample.firstRecord, .reopen ⟨0⟩,
      .append .topology Sample.secondRecord] (Ledgers.empty Sample.codec)).1 =
        [.appended (.ok ⟨0, ⟨.sha256, Sample.firstDigest⟩⟩), .opened,
          .appended (.ok ⟨1, ⟨.sha256, Sample.secondDigest⟩⟩)] := by decide +kernel
  rw [hresp] at hrun
  rw [hresp'] at hrun'
  refine ⟨store, store', hrun, hrun', (tamper_evident
    (hkeeps.presents Sample.roundTrips (hholds.head_eq.trans hhead))
    (hkeeps'.presents Sample.roundTrips (hholds'.head_eq.trans hhead))
    (Sample.injOn_sha256.mono ?_)).2⟩
  have hmem : ∀ seq (h : seq < [Sample.firstFrame, Sample.secondFrame].length),
      [Sample.firstFrame, Sample.secondFrame][seq] ∈
        [Sample.firstFrame, Sample.secondFrame, Sample.forgedFrame] :=
    fun seq h ↦ List.mem_append_left [Sample.forgedFrame] (List.getElem_mem h)
  rintro bytes ⟨seq, hseq, h | h⟩
  · rw [hholds.fetch .topology (Nat.lt_succ_of_le hseq), Except.ok.injEq] at h
    rw [← h]
    exact hmem seq _
  · rw [hholds'.fetch .topology (Nat.lt_succ_of_le hseq), Except.ok.injEq] at h
    rw [← h]
    exact hmem seq _

/-! ## An edit below an open store -/

/-- The files are changed on disk while the store is open. -/
def FileEventStore.edited (store : FileEventStore) (disk : Disk) : FileEventStore :=
  { store with disk := disk }

/-- A stream that holds the frames of a ledger has its records. -/
theorem Ledger.checked (hp : prims.RoundTrips) {ledger : Ledger prims}
    (h : Holds prims v ledger.frames) (stream : StreamId) :
    Checked prims stream v ledger.frames ledger.stored where
  nextSeq_eq := h.nextSeq_eq
  length_eq := by rw [length_stored, length_frames]
  fetch _ hi := h.fetch stream hi
  recordAt _ hi := recordAt_eq hp h stream hi
  chained := chained_storedFrom 0 none _

/-- What a check of the whole stream covers.  After any run of a client and any change of
the files below the open store that the check accepts, compare the last frame on disk with
the last record that was appended.  The records below it are read as they were appended
exactly if its back-link is the one it was written with; all records are exactly if its
hash is that of the head that the store remembers. -/
theorem verify_covers (hp : prims.RoundTrips) {config : FileStoreConfig} {ops : List Op}
    {responses : List Response} {store : FileEventStore}
    (hrun : FileEventStore.session prims config ops = some (responses, store))
    {head : StreamHead} (hhead : store.head stream = some head) (disk : Disk)
    (hinj : Set.InjOn prims.sha256 {bytes | ∃ seq ≤ head.seq,
      readFrameBytesAt (store.disk stream.asDirName) (store.streams stream).segments
        stream seq = .ok bytes ∨
      readFrameBytesAt (disk stream.asDirName) (store.streams stream).segments
        stream seq = .ok bytes})
    (hverify : (store.edited disk).verify prims stream 0 head.seq = .ok ()) :
    ∃ appended last edited,
      (∀ fromSeq limit, store.readFrom prims stream fromSeq limit =
        .ok ((appended.drop fromSeq).take limit)) ∧
      appended.map StoredRecord.record = appendedTo stream ops responses ∧
      appended.getLast? = some last ∧ last.seq = head.seq ∧ last.hash = head.hash ∧
      ((store.edited disk).volume stream).recordAt prims stream head.seq = .ok edited ∧
      ((store.edited disk).readFrom prims stream 0 head.seq = .ok (appended.take head.seq) ↔
        edited.prevHash = last.prevHash) ∧
      ∀ limit, head.seq < limit →
        ((store.edited disk).readFrom prims stream 0 limit = .ok appended ↔
          edited.hash = head.hash) := by
  obtain ⟨_, hrun', hkeeps⟩ := exists_session hp config ops
  rw [hrun, Option.some.injEq, Prod.mk.injEq] at hrun'
  obtain ⟨hresp, rfl⟩ := hrun'
  have hholds := (hkeeps stream).1
  have hc := Ledger.checked hp hholds stream
  -- the head is that of the ledger
  have hlast := hholds.head_eq.symm.trans hhead
  rw [← Ledger.head, Ledger.head_eq, Option.map_eq_some_iff] at hlast
  obtain ⟨last, hlast, rfl⟩ := hlast
  have hseq := Ledger.getLast?_stored_seq _ hlast
  have hnext : ((store.edited disk).volume stream).state.nextSeq = last.seq + 1 :=
    hc.nextSeq_eq.trans (hc.length_eq.symm.trans hseq.symm)
  obtain ⟨frames', records', hc'⟩ := checked_of_verify hnext hverify
  have hlen' : records'.length = last.seq + 1 :=
    hc'.length_eq.trans (hc'.nextSeq_eq.symm.trans hnext)
  have hrec : ((Ledgers.run ops (Ledgers.empty prims)).2 stream).stored.map
      StoredRecord.record = appendedTo stream ops responses := by
    rw [hresp, Ledger.stored_map_record, Ledgers.records_run]
    rfl
  generalize ((Ledgers.run ops (Ledgers.empty prims)).2 stream).stored = appended at *
  generalize ((Ledgers.run ops (Ledgers.empty prims)).2 stream).frames = frames at *
  have hinj' : Set.InjOn prims.sha256 {bytes | bytes ∈ frames' ∨ bytes ∈ frames} := by
    refine hinj.mono ?_
    rintro bytes (hb | hb)
    · obtain ⟨i, hi, rfl⟩ := List.getElem_of_mem hb
      rw [← hc'.length_eq, hlen'] at hi
      exact ⟨i, Nat.le_of_lt_succ hi, Or.inr (hc'.fetch i _)⟩
    · obtain ⟨i, hi, rfl⟩ := List.getElem_of_mem hb
      rw [← hc.length_eq, ← hseq] at hi
      exact ⟨i, Nat.le_of_lt_succ hi, Or.inl (hc.fetch i _)⟩
  have hn : last.seq < appended.length := Nat.lt_of_succ_le (Nat.le_of_eq hseq)
  have hn' : last.seq < records'.length := Nat.lt_of_succ_le (Nat.le_of_eq hlen'.symm)
  have hget : appended[last.seq] = last := by
    rw [List.getLast?_eq_getElem?, ← hseq] at hlast
    exact (List.getElem?_eq_some_iff.mp hlast).2
  have hbelow := hc'.take_eq_iff_prevHash hc hinj' hn' hn
  have hupto := hc'.take_succ_eq_iff_hash hc hinj' hn' hn
  rw [hget] at hbelow hupto
  refine ⟨appended, last, records'[last.seq], hc.readFrom, hrec, hlast, rfl, rfl,
    hc'.recordAt _ hn', ?_, fun limit hl ↦ ?_⟩
  · change Volume.readFrom _ _ _ _ _ = _ ↔ _
    rw [hc'.readFrom, Except.ok.injEq]
    exact hbelow
  · change Volume.readFrom _ _ _ _ _ = _ ↔ _
    rw [hc'.readFrom, Except.ok.injEq, List.drop_zero,
      List.take_of_length_le (hlen'.trans_le hl)]
    rw [List.take_of_length_le hlen'.le, List.take_of_length_le hseq.ge] at hupto
    exact hupto

/-- A stream of one record. -/
def Sample.state : StreamState where
  segments := [⟨0, [0]⟩]
  nextSeq := 1
  head := some ⟨0, ⟨.sha256, firstDigest⟩⟩
  writer := some ⟨0, []⟩
  activeLen := 4 + firstFrame.length
  wedged := false

/-- The directory of that stream, its frame replaced by the forged one. -/
def Sample.forgedFiles : Files := [(0, framed forgedFrame)]

theorem Sample.session_ok :
    ∃ store, FileEventStore.session codec ⟨5⟩ [.append .topology firstRecord] =
        some ([.appended (.ok ⟨0, ⟨.sha256, firstDigest⟩⟩)], store) ∧
      store.volume .topology = ⟨[(0, framed firstFrame)], state⟩ := by
  obtain ⟨store, hrun, -⟩ := exists_session roundTrips ⟨5⟩ [.append .topology firstRecord]
  have hresp : (Ledgers.run [.append .topology firstRecord] (Ledgers.empty codec)).1 =
      [.appended (.ok ⟨0, ⟨.sha256, firstDigest⟩⟩)] := by decide +kernel
  rw [hresp] at hrun
  have hvol : (FileEventStore.session codec ⟨5⟩ [.append .topology firstRecord]).map
      (fun r ↦ r.2.volume .topology) = some ⟨[(0, framed firstFrame)], state⟩ := by
    decide +kernel
  rw [hrun, Option.map_some, Option.some.injEq] at hvol
  exact ⟨store, hrun, hvol⟩

/-- The forged frame of the same length passes the check and is read back. -/
theorem head_edit_passes_verify :
    ∃ store, FileEventStore.session Sample.codec ⟨5⟩ [.append .topology Sample.firstRecord] =
        some ([.appended (.ok ⟨0, ⟨.sha256, Sample.firstDigest⟩⟩)], store) ∧
      store.disk "topology" = [(0, framed Sample.firstFrame)] ∧
      Sample.forgedFrame.length = Sample.firstFrame.length ∧
      Sample.forgedRecord ≠ Sample.firstRecord ∧
      let edited := store.edited (Function.update store.disk "topology" Sample.forgedFiles)
      edited.verify Sample.codec .topology 0 0 = .ok () ∧
      store.readFrom Sample.codec .topology 0 1 =
        .ok [⟨0, none, ⟨.sha256, Sample.firstDigest⟩, Sample.firstRecord⟩] ∧
      edited.readFrom Sample.codec .topology 0 1 =
        .ok [⟨0, none, ⟨.sha256, Sample.forgedDigest⟩, Sample.forgedRecord⟩] := by
  obtain ⟨store, hrun, hvol⟩ := Sample.session_ok
  refine ⟨store, hrun, congrArg Volume.files hvol, by decide +kernel, by decide +kernel, ?_⟩
  intro edited
  have hedited : edited.volume .topology = ⟨Sample.forgedFiles, Sample.state⟩ := by
    change Volume.mk (Function.update store.disk "topology" _ "topology") _ = _
    rw [Function.update_self]
    exact congrArg (Volume.mk _) (congrArg Volume.state hvol)
  unfold FileEventStore.verify FileEventStore.readFrom
  rw [hedited, hvol]
  exact ⟨by decide +kernel, by decide +kernel, by decide +kernel⟩

/-- The same edit: what is read is not what was appended, since the hash is not that of the
head. -/
theorem verify_covers_sample :
    ∃ store appended, FileEventStore.session Sample.codec ⟨5⟩
        [.append .topology Sample.firstRecord] =
        some ([.appended (.ok ⟨0, ⟨.sha256, Sample.firstDigest⟩⟩)], store) ∧
      appended.map StoredRecord.record = [Sample.firstRecord] ∧
      (store.edited fun _ ↦ Sample.forgedFiles).verify Sample.codec .topology 0 0 = .ok () ∧
      (store.edited fun _ ↦ Sample.forgedFiles).readFrom Sample.codec .topology 0 5 ≠
        .ok appended := by
  obtain ⟨store, hrun, hvol⟩ := Sample.session_ok
  have hedited : (store.edited fun _ ↦ Sample.forgedFiles).volume .topology =
      ⟨Sample.forgedFiles, Sample.state⟩ := congrArg (Volume.mk _) (congrArg Volume.state hvol)
  have hhead : store.head .topology = some ⟨0, ⟨.sha256, Sample.firstDigest⟩⟩ :=
    congrArg (fun v ↦ v.state.head) hvol
  have hverify : (store.edited fun _ ↦ Sample.forgedFiles).verify Sample.codec .topology 0 0 =
      .ok () := by
    unfold FileEventStore.verify
    rw [hedited]
    decide +kernel
  have hfiles : store.disk StreamId.topology.asDirName = [(0, framed Sample.firstFrame)] :=
    congrArg Volume.files hvol
  have hsegments : (store.streams .topology).segments = Sample.state.segments :=
    congrArg (fun v ↦ v.state.segments) hvol
  have hinj : Set.InjOn Sample.codec.sha256 {bytes | ∃ seq ≤ 0,
      readFrameBytesAt (store.disk StreamId.topology.asDirName) (store.streams .topology).segments
        .topology seq = .ok bytes ∨
      readFrameBytesAt Sample.forgedFiles (store.streams .topology).segments
        .topology seq = .ok bytes} := by
    have hfirst : readFrameBytesAt [(0, framed Sample.firstFrame)] Sample.state.segments
        .topology 0 = .ok Sample.firstFrame := by decide +kernel
    have hforged : readFrameBytesAt Sample.forgedFiles Sample.state.segments .topology 0 =
        .ok Sample.forgedFrame := by decide +kernel
    rw [hfiles, hsegments]
    refine Sample.injOn_sha256.mono ?_
    rintro bytes ⟨seq, hseq, h | h⟩
    · cases Nat.le_zero.mp hseq
      rw [hfirst, Except.ok.injEq] at h
      exact h ▸ List.mem_cons_self
    · cases Nat.le_zero.mp hseq
      rw [hforged, Except.ok.injEq] at h
      exact h ▸ List.mem_cons_of_mem _ (List.mem_cons_of_mem _ List.mem_cons_self)
  obtain ⟨appended, last, edited, -, hrec, -, -, -, hat, -, hread⟩ :=
    verify_covers Sample.roundTrips hrun hhead (fun _ ↦ Sample.forgedFiles) hinj hverify
  have hforged : Volume.recordAt Sample.codec .topology ⟨Sample.forgedFiles, Sample.state⟩ 0 =
      .ok ⟨0, none, ⟨.sha256, Sample.forgedDigest⟩, Sample.forgedRecord⟩ := by decide +kernel
  rw [hedited, hforged, Except.ok.injEq] at hat
  refine ⟨store, appended, hrun, hrec, hverify, fun h ↦ ?_⟩
  have hhash := (hread 5 (by decide)).mp h
  rw [← hat] at hhash
  exact absurd hhash (by decide +kernel)

end Koalisi.Persistence
