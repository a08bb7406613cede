import Koalisi.Persistence.Reading

/-!
# Checking a stream window by window, and what a failed check names

A check of a range starts from the hash of the frame before the range, read from the disk,
and so looks at the link into its first record too.  Hence a range is checked by checking it
in two pieces, one behind the other, with the same result or the same error
(`verify_append`): no link falls between two windows.

A failed link is reported at the record it points to, one position before the record that
carries it.  When a single frame below the head was changed and still decodes, the check of
the whole stream therefore names that frame if its back-pointer is the one it had (its
successor's link fails), and the frame before it if the back-pointer was changed
(`verify_names_edited`); the first frame is always named itself.
-/

namespace Koalisi.Persistence

open Koalisi.Lib.Framing Koalisi.Lib.Fallible Koalisi.Lib.HashChain

variable {prims : Primitives} {stream : StreamId} {v v' : Volume}

/-! ## One link -/

/-- The check of one position, for a record that decodes. -/
theorem checkAt_of_recordAt {seq : Nat} {stored : StoredRecord}
    (h : v.recordAt prims stream seq = .ok stored) (prev : Option RecordHash) :
    v.checkAt prims stream prev seq =
      if stored.prevHash = prev then .ok (some stored.hash)
      else .error (.chainBroken stream (seq - 1)) := by
  have hseq : stored.seq = seq := by
    obtain ⟨bytes, -, hdec⟩ := except_bind_eq_ok.mp h
    exact (decodeFrame_ok hdec).1
  unfold Volume.checkAt checkBackLink
  rw [h, ← hseq]
  change Except.bind (if stored.prevHash = prev then _ else _) _ = _
  split <;> rfl

theorem checkAt_eq_ok {seq : Nat} {prev out : Option RecordHash} :
    v.checkAt prims stream prev seq = .ok out ↔
      ∃ stored, v.recordAt prims stream seq = .ok stored ∧ stored.prevHash = prev ∧
        some stored.hash = out := by
  constructor
  · intro h
    obtain ⟨stored, hstored, h⟩ := except_bind_eq_ok.mp h
    obtain ⟨_, hlink, h⟩ := except_bind_eq_ok.mp h
    exact ⟨stored, hstored, checkBackLink_eq_ok.mp hlink, Except.ok.inj h⟩
  · rintro ⟨stored, hstored, hlink, rfl⟩
    rw [checkAt_of_recordAt hstored, if_pos hlink]

/-- What a check hands on is what a check of the next position would start from. -/
theorem predecessorHash_succ {seq : Nat} {prev out : Option RecordHash}
    (h : v.checkAt prims stream prev seq = .ok out) :
    predecessorHash prims v.files v.state.segments stream (seq + 1) = .ok out := by
  obtain ⟨stored, hstored, -, rfl⟩ := checkAt_eq_ok.mp h
  obtain ⟨bytes, hbytes, hdec⟩ := except_bind_eq_ok.mp hstored
  unfold predecessorHash
  rw [if_neg seq.succ_ne_zero, Nat.add_sub_cancel, hbytes, (decodeFrame_ok hdec).2.1]
  rfl

/-- So a loop over positions hands on the hash of the last frame it has seen. -/
theorem predecessorHash_of_foldlM {fromSeq n : Nat} {prev out : Option RecordHash}
    (h : (List.range' fromSeq (n + 1)).foldlM (v.checkAt prims stream) prev = .ok out) :
    predecessorHash prims v.files v.state.segments stream (fromSeq + n + 1) = .ok out := by
  rw [List.range'_1_concat, List.foldlM_append] at h
  obtain ⟨mid, -, hlast⟩ := except_bind_eq_ok.mp h
  obtain ⟨_, hcheck, hnil⟩ := except_bind_eq_ok.mp hlast
  cases hnil
  exact predecessorHash_succ hcheck

/-! ## Three records -/

namespace Sample

def thirdRecord : Record := record 2 (payload 2 2 9)

def thirdDigest : Digest where
  bytes := [93, 233, 136, 46, 10, 132, 32, 45, 149, 115, 91, 170, 65, 87, 228, 201, 1, 120, 151, 87,
    13, 118, 174, 171, 145, 25, 208, 198, 53, 76, 85, 111]
  size := rfl

def thirdFrame : Bytes := frame 2 2 (cborBytes secondDigest.bytes) (payload 2 2 9)

/-- The first digest with another first byte. -/
def otherDigest : Digest where
  bytes := [92, 234, 120, 34, 196, 81, 91, 85, 58, 181, 141, 182, 189, 167, 217, 127, 104, 28, 199,
    191, 162, 239, 135, 217, 220, 225, 254, 92, 198, 123, 41, 79]
  size := rfl

/-- The second frame with another back-pointer. -/
def relinkedFrame : Bytes := frame 1 1 (cborBytes otherDigest.bytes) (payload 1 1 7)

def relinkedDigest : Digest where
  bytes := [81, 234, 234, 175, 226, 194, 113, 55, 237, 138, 35, 83, 226, 202, 227, 58, 13, 45, 43,
    116, 101, 33, 92, 72, 64, 1, 185, 180, 242, 47, 133, 174]
  size := rfl

/-- CBOR and SHA-256 on these frames. -/
def longCodec : Primitives := .ofTable
  [(.ofRecord firstRecord 0 none, firstFrame),
    (.ofRecord secondRecord 1 (some ⟨.sha256, firstDigest⟩), secondFrame),
    (.ofRecord thirdRecord 2 (some ⟨.sha256, secondDigest⟩), thirdFrame),
    (.ofRecord forgedRecord 0 none, forgedFrame),
    (.ofRecord secondRecord 1 (some ⟨.sha256, otherDigest⟩), relinkedFrame)]
  [(firstFrame, firstDigest), (secondFrame, secondDigest), (thirdFrame, thirdDigest),
    (forgedFrame, forgedDigest), (relinkedFrame, relinkedDigest)]
  zeroDigest

/-- An open store whose topology stream has these three frames on disk. -/
def storeOf (first second : Bytes) : FileEventStore where
  disk _ := [(0, framed first ++ framed second ++ framed thirdFrame)]
  config := ⟨5⟩
  streams _ := {
    segments := [⟨0, [0, 166, 397]⟩]
    nextSeq := 3
    head := some ⟨2, ⟨.sha256, thirdDigest⟩⟩
    writer := some ⟨0, []⟩
    activeLen := 627
    wedged := false }

theorem verify_storeOf : (storeOf firstFrame secondFrame).verify longCodec .topology 0 2 =
    .ok () := by
  decide +kernel

end Sample

/-! ## Windows -/

/-- A check of a range that the stream has. -/
theorem verify_eq_foldlM {fromSeq toSeq : Nat} (hft : fromSeq ≤ toSeq)
    (hto : toSeq < v.state.nextSeq) :
    v.verify prims stream fromSeq toSeq = do
      let prev ← predecessorHash prims v.files v.state.segments stream fromSeq
      let _ ← (List.range' fromSeq (toSeq + 1 - fromSeq)).foldlM (v.checkAt prims stream) prev
      return () := by
  unfold Volume.verify
  dsimp only
  rw [if_neg (by omega), Nat.min_eq_left (by omega), if_neg (by omega)]

/-- Positions behind the head are not looked at. -/
theorem verify_min (fromSeq toSeq : Nat) :
    v.verify prims stream fromSeq toSeq =
      v.verify prims stream fromSeq (min toSeq (v.state.nextSeq - 1)) := by
  unfold Volume.verify
  dsimp only
  rw [Nat.min_assoc, Nat.min_self]

theorem verify_of_lt {fromSeq toSeq : Nat} (hn : v.state.nextSeq ≠ 0)
    (h : min toSeq (v.state.nextSeq - 1) < fromSeq) :
    v.verify prims stream fromSeq toSeq = .ok () := by
  unfold Volume.verify
  dsimp only
  rw [if_neg hn, if_pos h]

/-- A range is checked in two pieces as it is in one, whatever is on the disk. -/
theorem verify_append {a b c : Nat} (hab : a ≤ b) (hbc : b < c) :
    v.verify prims stream a c =
      (v.verify prims stream a b >>= fun _ ↦ v.verify prims stream (b + 1) c) := by
  rcases Nat.eq_zero_or_pos v.state.nextSeq with hzero | hpos
  · unfold Volume.verify
    rw [if_pos hzero, if_pos hzero]
    rfl
  rcases Nat.lt_or_ge b (v.state.nextSeq - 1) with hb | hb
  · -- the last position of the second piece
    obtain ⟨last, hlast⟩ : ∃ last, min c (v.state.nextSeq - 1) = last := ⟨_, rfl⟩
    have hbl : b < last := by omega
    rw [verify_min a c, verify_min (b + 1) c, hlast, verify_eq_foldlM (by omega) (by omega),
      verify_eq_foldlM hab (by omega), verify_eq_foldlM hbl (by omega)]
    cases hprev : predecessorHash prims v.files v.state.segments stream a with
    | error e => rfl
    | ok prev =>
        obtain ⟨n, rfl⟩ : ∃ n, b = a + n := ⟨b - a, by omega⟩
        have hsplit : List.range' a (last + 1 - a) =
            List.range' a (n + 1) ++ List.range' (a + n + 1) (last + 1 - (a + n + 1)) := by
          rw [Nat.add_assoc a n 1, List.range'_append_1]
          congr 1
          omega
        have hlen : a + n + 1 - a = n + 1 := by omega
        rw [hsplit, hlen]
        change Except.bind (List.foldlM (v.checkAt prims stream) prev _) _ =
          Except.bind (Except.bind (List.foldlM (v.checkAt prims stream) prev _) _) _
        rw [List.foldlM_append]
        cases hfirst : (List.range' a (n + 1)).foldlM (v.checkAt prims stream) prev with
        | error e => rfl
        | ok out =>
            change _ = Except.bind (predecessorHash _ _ _ _ _) _
            rw [predecessorHash_of_foldlM hfirst]
            rfl
  · have hrest : v.verify prims stream (b + 1) c = .ok () := verify_of_lt hpos.ne' (by omega)
    have hhead : v.verify prims stream a c = v.verify prims stream a b := by
      rw [verify_min a c, verify_min a b, Nat.min_eq_right hb, Nat.min_eq_right (hb.trans hbc.le)]
    rw [hhead, hrest]
    cases v.verify prims stream a b <;> rfl

/-- Checking a stream window by window loses no link. -/
theorem verify_window_iff (store : FileEventStore) (stream : StreamId) {a b c : Nat} (hab : a ≤ b)
    (hbc : b < c) :
    store.verify prims stream a c = .ok () ↔
      store.verify prims stream a b = .ok () ∧ store.verify prims stream (b + 1) c = .ok () := by
  change Volume.verify _ _ _ _ _ = _ ↔ Volume.verify _ _ _ _ _ = _ ∧ Volume.verify _ _ _ _ _ = _
  rw [verify_append hab hbc, except_bind_eq_ok]
  exact ⟨fun ⟨_, h, h'⟩ ↦ ⟨h, h'⟩, fun ⟨h, h'⟩ ↦ ⟨(), h, h'⟩⟩

/-- A changed back-pointer in the second frame: the link is one between two windows, and the
second one fails. -/
theorem verify_window_second_fails :
    (Sample.storeOf Sample.firstFrame Sample.relinkedFrame).verify Sample.longCodec .topology 0 0 =
        .ok () ∧
      (Sample.storeOf Sample.firstFrame Sample.relinkedFrame).verify Sample.longCodec
        .topology 1 2 ≠ .ok () := by
  have hfirst : (Sample.storeOf Sample.firstFrame Sample.relinkedFrame).verify Sample.longCodec
      .topology 0 0 = .ok () := by
    decide +kernel
  refine ⟨hfirst, fun hsecond ↦ ?_⟩
  have hall : (Sample.storeOf Sample.firstFrame Sample.relinkedFrame).verify Sample.longCodec
      .topology 0 2 = .ok () :=
    (verify_window_iff _ .topology (Nat.le_refl 0) (Nat.succ_pos 1)).mpr ⟨hfirst, hsecond⟩
  exact absurd hall (by decide +kernel)

/-! ## One edited frame -/

/-- Two contents of a stream that differ in the frame at one position. -/
structure EditedAt (stream : StreamId) (v v' : Volume) (k : Nat) (original forged : Bytes) :
    Prop where
  nextSeq_eq : v'.state.nextSeq = v.state.nextSeq
  fetch_eq : ∀ i < v.state.nextSeq, i ≠ k →
    readFrameBytesAt v'.files v'.state.segments stream i =
      readFrameBytesAt v.files v.state.segments stream i
  fetch_original : readFrameBytesAt v.files v.state.segments stream k = .ok original
  fetch_forged : readFrameBytesAt v'.files v'.state.segments stream k = .ok forged
  ne : forged ≠ original

namespace EditedAt

variable {k : Nat} {original forged : Bytes}

/-- Every other record is read as before. -/
theorem recordAt_eq (h : EditedAt stream v v' k original forged) {i : Nat}
    (hi : i < v.state.nextSeq) (hik : i ≠ k) :
    v'.recordAt prims stream i = v.recordAt prims stream i := by
  unfold Volume.recordAt
  rw [h.fetch_eq i hi hik]

/-- The check sees no difference below the edited frame. -/
theorem foldlM_checkAt_eq (h : EditedAt stream v v' k original forged)
    (hk : k ≤ v.state.nextSeq) (prev : Option RecordHash) :
    (List.range' 0 k).foldlM (v'.checkAt prims stream) prev =
      (List.range' 0 k).foldlM (v.checkAt prims stream) prev := by
  refine foldlM_congr (fun i hi b ↦ ?_) prev
  rw [List.mem_range'_1] at hi
  unfold Volume.checkAt
  rw [h.recordAt_eq (by omega) (by omega)]

end EditedAt

/-- A stream that passes the check, seen from one of its positions below the head. -/
theorem exists_links_of_verify {head k : Nat} (hnext : v.state.nextSeq = head + 1) (hk : k < head)
    (h : v.verify prims stream 0 head = .ok ()) :
    ∃ prev record next,
      (List.range' 0 k).foldlM (v.checkAt prims stream) none = .ok prev ∧
      v.recordAt prims stream k = .ok record ∧ record.prevHash = prev ∧
      v.recordAt prims stream (k + 1) = .ok next ∧ next.prevHash = some record.hash := by
  rw [verify_eq_foldlM (Nat.zero_le _) (by omega)] at h
  obtain ⟨_, hnone, h⟩ := except_bind_eq_ok.mp h
  cases hnone
  obtain ⟨_, h, -⟩ := except_bind_eq_ok.mp h
  obtain ⟨m, hm⟩ : ∃ m, head + 1 - 0 = k + (m + 2) := ⟨head - k - 1, by omega⟩
  rw [hm, ← List.range'_append_1, List.foldlM_append, Nat.zero_add, List.range'_succ,
    List.range'_succ] at h
  obtain ⟨prev, hprev, h⟩ := except_bind_eq_ok.mp h
  obtain ⟨_, hcheck, h⟩ := except_bind_eq_ok.mp h
  obtain ⟨record, hrecord, hlink, rfl⟩ := checkAt_eq_ok.mp hcheck
  obtain ⟨_, hcheck, -⟩ := except_bind_eq_ok.mp h
  obtain ⟨next, hnext, hlink', rfl⟩ := checkAt_eq_ok.mp hcheck
  exact ⟨prev, record, next, hprev, hrecord, hlink, hnext, hlink'⟩

/-- A check that comes to two positions of which one fails, reports that one. -/
theorem verify_error_of_links {head k : Nat} (hnext : v.state.nextSeq = head + 1) (hk : k < head)
    {prev : Option RecordHash} {e : PersistenceError}
    (hprev : (List.range' 0 k).foldlM (v.checkAt prims stream) none = .ok prev)
    (h : (v.checkAt prims stream prev k >>= fun out ↦ v.checkAt prims stream out (k + 1)) =
      .error e) :
    v.verify prims stream 0 head = .error e := by
  obtain ⟨m, hm⟩ : ∃ m, head + 1 - 0 = k + (m + 2) := ⟨head - k - 1, by omega⟩
  rw [verify_eq_foldlM (Nat.zero_le _) (by omega), hm, ← List.range'_append_1, Nat.zero_add,
    List.range'_succ, List.range'_succ]
  change Except.bind (List.foldlM (v.checkAt prims stream) none _) _ = _
  rw [List.foldlM_append, hprev]
  change Except.bind (List.foldlM (v.checkAt prims stream) prev _) _ = _
  rw [List.foldlM_cons]
  cases hcheck : v.checkAt prims stream prev k with
  | error e' =>
      rw [hcheck] at h
      cases h
      rfl
  | ok out =>
      rw [hcheck] at h
      change v.checkAt prims stream out (k + 1) = _ at h
      change Except.bind (List.foldlM (v.checkAt prims stream) out _) _ = _
      rw [List.foldlM_cons, h]
      rfl

/-- A single edited frame below the head that still decodes: the check of the whole stream
names it if its back-pointer is the one it had, and otherwise the frame before it; the first
frame, which has none before it, is named itself. -/
theorem verify_names_edited {store edited : FileEventStore} {head k : Nat}
    {original forged : Bytes} {record' : StoredRecord}
    (hnext : (store.streams stream).nextSeq = head + 1)
    (hverify : store.verify prims stream 0 head = .ok ()) (hk : k < head)
    (hedit : EditedAt stream (store.volume stream) (edited.volume stream) k original forged)
    (hdecode : decodeFrame prims forged stream k = .ok record')
    (hhash : prims.sha256 forged = prims.sha256 original → forged = original) :
    ∃ record, decodeFrame prims original stream k = .ok record ∧
      edited.verify prims stream 0 head =
        .error (.chainBroken stream (if record'.prevHash = record.prevHash then k else k - 1)) := by
  have hnext : (store.volume stream).state.nextSeq = head + 1 := hnext
  obtain ⟨prev, record, next, hprev, hrecord, hlink, hafter, hlink'⟩ :=
    exists_links_of_verify hnext hk hverify
  have hdec : decodeFrame prims original stream k = .ok record := by
    unfold Volume.recordAt at hrecord
    rw [hedit.fetch_original] at hrecord
    exact hrecord
  have hrecord' : (edited.volume stream).recordAt prims stream k = .ok record' := by
    unfold Volume.recordAt
    rw [hedit.fetch_forged]
    exact hdecode
  refine ⟨record, hdec, verify_error_of_links (hedit.nextSeq_eq.trans hnext) hk
    ((hedit.foldlM_checkAt_eq (by omega) none).trans hprev) ?_⟩
  rw [checkAt_of_recordAt hrecord', hlink]
  split
  · -- the link into the edited frame holds; its successor has the hash of the old frame
    change (edited.volume stream).checkAt prims stream (some record'.hash) (k + 1) = _
    rw [checkAt_of_recordAt ((hedit.recordAt_eq (by omega) (by omega)).trans hafter),
      if_neg ?_, Nat.add_sub_cancel]
    rw [hlink', (decodeFrame_ok hdec).2.1, (decodeFrame_ok hdecode).2.1, Option.some_inj]
    exact fun heq ↦ hedit.ne (hhash (congrArg RecordHash.digest heq).symm)
  · rfl

namespace Sample

/-- The first frame with another weight. -/
theorem editedAt_first : EditedAt .topology ((storeOf firstFrame secondFrame).volume .topology)
    ((storeOf forgedFrame secondFrame).volume .topology) 0 firstFrame forgedFrame where
  nextSeq_eq := rfl
  fetch_eq := by decide +kernel
  fetch_original := by decide +kernel
  fetch_forged := by decide +kernel
  ne := by decide +kernel

/-- The second frame with another back-pointer. -/
theorem editedAt_second : EditedAt .topology ((storeOf firstFrame secondFrame).volume .topology)
    ((storeOf firstFrame relinkedFrame).volume .topology) 1 secondFrame relinkedFrame where
  nextSeq_eq := rfl
  fetch_eq := by decide +kernel
  fetch_original := by decide +kernel
  fetch_forged := by decide +kernel
  ne := by decide +kernel

end Sample

/-- Another weight in the first frame: the check names it. -/
theorem verify_names_edited_first :
    ∃ record, decodeFrame Sample.longCodec Sample.firstFrame .topology 0 = .ok record ∧
      (Sample.storeOf Sample.forgedFrame Sample.secondFrame).verify Sample.longCodec .topology 0 2 =
        .error (.chainBroken .topology (if none = record.prevHash then 0 else 0 - 1)) :=
  have hdecode : decodeFrame Sample.longCodec Sample.forgedFrame .topology 0 =
      .ok ⟨0, none, ⟨.sha256, Sample.forgedDigest⟩, Sample.forgedRecord⟩ := by
    decide +kernel
  verify_names_edited rfl Sample.verify_storeOf (by decide) Sample.editedAt_first hdecode
    (by decide +kernel)

/-- Another back-pointer in the second frame, which still decodes: the check names the first. -/
theorem verify_names_predecessor :
    (Sample.storeOf Sample.firstFrame Sample.secondFrame).verify Sample.longCodec .topology 0 2 =
        .ok () ∧
      EditedAt .topology
        ((Sample.storeOf Sample.firstFrame Sample.secondFrame).volume .topology)
        ((Sample.storeOf Sample.firstFrame Sample.relinkedFrame).volume .topology) 1
        Sample.secondFrame Sample.relinkedFrame ∧
      decodeFrame Sample.longCodec Sample.relinkedFrame .topology 1 =
        .ok ⟨1, some ⟨.sha256, Sample.otherDigest⟩, ⟨.sha256, Sample.relinkedDigest⟩,
          Sample.secondRecord⟩ ∧
      (Sample.storeOf Sample.firstFrame Sample.relinkedFrame).verify Sample.longCodec
        .topology 0 2 = .error (.chainBroken .topology 0) :=
  ⟨Sample.verify_storeOf, Sample.editedAt_second, by decide +kernel, by decide +kernel⟩

end Koalisi.Persistence
