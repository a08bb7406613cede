import Koalisi.Persistence.Volumes

/-!
# Ledgers

What a stream is for: an append-only list of records.  A ledger keeps each record
together with the frame it was given, and is only ever grown by appending, so its
frames decode to its records and each carries the hash of the one before it.
What is read of a ledger is `stored`, its records with the fields a store assigns.

A stream that holds the frames of a ledger shows exactly the ledger to whoever
reads it: its head, its slices, and a chain that verifies.
-/

namespace Koalisi.Persistence

open Koalisi.Lib.Framing Koalisi.Lib.Fallible Koalisi.Lib.HashChain

variable {prims : Primitives}

/-- A record and the frame it was given. -/
structure Entry where
  record : Record
  frame : Bytes
deriving DecidableEq, Repr

/-- Every frame is the encoding of its record behind the frames before it. -/
inductive Grown (prims : Primitives) : List Entry → Prop where
  | nil : Grown prims []
  | concat {entries : List Entry} {record : Record} {frame : Bytes} (h : Grown prims entries)
      (hf : nextFrame prims (entries.map Entry.frame) record = .ok frame) :
      Grown prims (entries ++ [⟨record, frame⟩])

/-- An append-only list of records. -/
structure Ledger (prims : Primitives) where
  entries : List Entry
  grown : Grown prims entries

/-- The stored form of records from position `seq` on, the first behind `prev`. -/
def storedFrom (prims : Primitives) (seq : Nat) (prev : Option RecordHash) :
    List Entry → List StoredRecord
  | [] => []
  | e :: es => ⟨seq, prev, hashFrame prims e.frame, e.record⟩ ::
      storedFrom prims (seq + 1) (some (hashFrame prims e.frame)) es

theorem lastHash_eq_tip (frames : List Bytes) :
    lastHash prims frames = tip (hashFrame prims) none frames := (tip_eq_getLast? frames).symm

theorem Grown.take {entries : List Entry} (h : Grown prims entries) (n : Nat) :
    Grown prims (entries.take n) := by
  induction h with
  | nil =>
      rw [List.take_nil]
      exact .nil
  | @concat entries record frame h hf ih =>
      rcases Nat.lt_or_ge entries.length n with hn | hn
      · rw [List.take_of_length_le (by rw [List.length_append]; exact hn)]
        exact .concat h hf
      · rw [List.take_append_of_le_length hn]
        exact ih

namespace Ledger

/-- No records. -/
def empty : Ledger prims := ⟨[], .nil⟩

/-- The frames of a ledger. -/
def frames (ledger : Ledger prims) : List Bytes := ledger.entries.map Entry.frame

/-- The records of a ledger. -/
def records (ledger : Ledger prims) : List Record := ledger.entries.map Entry.record

/-- The records with the fields a store assigns. -/
def stored (ledger : Ledger prims) : List StoredRecord := storedFrom prims 0 none ledger.entries

/-- The last record's position and hash. -/
def head (ledger : Ledger prims) : Option StreamHead := headOf prims ledger.frames

/-- Append a record, unless it cannot be encoded. -/
def append (ledger : Ledger prims) (record : Record) :
    Except PersistenceError StreamHead × Ledger prims :=
  match h : nextFrame prims ledger.frames record with
  | .ok frame => (.ok ⟨ledger.frames.length, hashFrame prims frame⟩,
      ⟨ledger.entries ++ [⟨record, frame⟩], ledger.grown.concat h⟩)
  | .error e => (.error e, ledger)

/-- The first `n` records. -/
def take (ledger : Ledger prims) (n : Nat) : Ledger prims :=
  ⟨ledger.entries.take n, ledger.grown.take n⟩

variable (ledger : Ledger prims)

theorem append_of_ok {record : Record} {frame : Bytes}
    (h : nextFrame prims ledger.frames record = .ok frame) :
    (ledger.append record).1 = .ok ⟨ledger.frames.length, hashFrame prims frame⟩ ∧
      (ledger.append record).2.entries = ledger.entries ++ [⟨record, frame⟩] := by
  unfold append
  split
  · rename_i f hf
    rw [h] at hf
    cases hf
    exact ⟨rfl, rfl⟩
  · rename_i e he
    rw [h] at he
    cases he

theorem append_of_error {record : Record} {e : PersistenceError}
    (h : nextFrame prims ledger.frames record = .error e) :
    ledger.append record = (.error e, ledger) := by
  unfold append
  split
  · rename_i f hf
    rw [h] at hf
    cases hf
  · rename_i e' he
    rw [h] at he
    cases he
    rfl

@[simp] theorem frames_take (n : Nat) : (ledger.take n).frames = ledger.frames.take n :=
  List.map_take

theorem length_frames : ledger.frames.length = ledger.entries.length := List.length_map _

/-! ## What is stored -/

end Ledger

@[simp] theorem length_storedFrom (seq : Nat) (prev : Option RecordHash) (entries : List Entry) :
    (storedFrom prims seq prev entries).length = entries.length := by
  induction entries generalizing seq prev with
  | nil => rfl
  | cons e es ih => rw [storedFrom, List.length_cons, ih, List.length_cons]

theorem storedFrom_concat (seq : Nat) (prev : Option RecordHash) (entries : List Entry)
    (e : Entry) :
    storedFrom prims seq prev (entries ++ [e]) = storedFrom prims seq prev entries ++
      [⟨seq + entries.length, tip (hashFrame prims) prev (entries.map Entry.frame),
        hashFrame prims e.frame, e.record⟩] := by
  induction entries generalizing seq prev with
  | nil => rfl
  | cons e' es ih =>
      rw [List.cons_append, storedFrom, ih, storedFrom, List.length_cons, List.map_cons, tip,
        List.cons_append, Nat.add_assoc, Nat.add_comm 1]

theorem chained_storedFrom (seq : Nat) (prev : Option RecordHash) (entries : List Entry) :
    Chained prev (storedFrom prims seq prev entries) := by
  induction entries generalizing seq prev with
  | nil => trivial
  | cons e es ih => exact ⟨rfl, ih _ _⟩

theorem storedFrom_map_record (seq : Nat) (prev : Option RecordHash) (entries : List Entry) :
    (storedFrom prims seq prev entries).map StoredRecord.record = entries.map Entry.record := by
  induction entries generalizing seq prev with
  | nil => rfl
  | cons e es ih => rw [storedFrom, List.map_cons, ih, List.map_cons]

/-- Sequence numbers are dense. -/
theorem storedFrom_map_seq (seq : Nat) (prev : Option RecordHash) (entries : List Entry) :
    (storedFrom prims seq prev entries).map StoredRecord.seq =
      List.range' seq entries.length := by
  induction entries generalizing seq prev with
  | nil => rfl
  | cons e es ih => rw [storedFrom, List.map_cons, ih, List.length_cons, List.range'_succ]

theorem storedFrom_take (seq : Nat) (prev : Option RecordHash) (entries : List Entry) (n : Nat) :
    (storedFrom prims seq prev entries).take n = storedFrom prims seq prev (entries.take n) := by
  induction entries generalizing seq prev n with
  | nil => rw [List.take_nil, storedFrom, List.take_nil]
  | cons e es ih =>
      cases n with
      | zero => rfl
      | succ n => rw [storedFrom, List.take_succ_cons, ih, List.take_succ_cons, storedFrom]

theorem chainTip_storedFrom (seq : Nat) (prev : Option RecordHash) (entries : List Entry) :
    chainTip prev (storedFrom prims seq prev entries) =
      tip (hashFrame prims) prev (entries.map Entry.frame) := by
  induction entries generalizing seq prev with
  | nil => rfl
  | cons e es ih => exact ih _ _

/-- Every frame of a ledger decodes to its record. -/
theorem Grown.decodes (hp : prims.RoundTrips) {entries : List Entry} (h : Grown prims entries)
    (stream : StreamId) {i : Nat} (hi : i < entries.length)
    (hi' : i < (storedFrom prims 0 none entries).length) :
    decodeFrame prims entries[i].frame stream i = .ok (storedFrom prims 0 none entries)[i] := by
  induction h with
  | nil => cases hi
  | @concat entries record frame h hf ih =>
      simp only [storedFrom_concat]
      rcases Nat.lt_or_ge i entries.length with hlt | hge
      · rw [List.getElem_append_left hlt,
          List.getElem_append_left (by rw [length_storedFrom]; exact hlt)]
        exact ih hlt _
      · have heq : i = entries.length := by
          rw [List.length_append, List.length_singleton] at hi
          omega
        subst heq
        rw [List.getElem_concat_length rfl,
          List.getElem_concat_length (length_storedFrom _ _ _).symm]
        have hdec := decodeFrame_encodeFrame hp (nextFrame_small hf).1 stream
        rw [List.length_map, lastHash_eq_tip] at hdec
        rw [hdec, Nat.zero_add]

/-- The last frame of a ledger passes the re-verification on opening. -/
theorem Grown.tail (hp : prims.RoundTrips) {entries : List Entry} (h : Grown prims entries)
    (stream : StreamId) {init : List Bytes} {p : Bytes}
    (heq : entries.map Entry.frame = init ++ [p]) :
    ∃ stored, decodeFrame prims p stream init.length = .ok stored ∧
      stored.prevHash = lastHash prims init := by
  cases h with
  | nil => exact absurd heq.symm (List.append_ne_nil_of_right_ne_nil _ (List.cons_ne_nil _ _))
  | @concat entries record frame h hf =>
      rw [List.map_append, List.map_singleton] at heq
      obtain ⟨rfl, hframe⟩ := List.append_inj' heq rfl
      cases hframe
      exact ⟨_, decodeFrame_encodeFrame hp (nextFrame_small hf).1 stream, rfl⟩

theorem Grown.small {entries : List Entry} (h : Grown prims entries) :
    ∀ p ∈ entries.map Entry.frame, Small p := by
  induction h with
  | nil =>
      intro p hp
      cases hp
  | concat h hf ih =>
      intro p hp
      rw [List.map_append] at hp
      rcases List.mem_append.mp hp with hp | hp
      · exact ih p hp
      · rw [List.mem_singleton.mp hp]
        exact (nextFrame_small hf).2

/-! ## What a stream shows of its ledger -/

namespace Ledger

variable {v : Volume} (ledger : Ledger prims)

@[simp] theorem length_stored : ledger.stored.length = ledger.entries.length :=
  length_storedFrom _ _ _

theorem stored_map_record : ledger.stored.map StoredRecord.record = ledger.records :=
  storedFrom_map_record _ _ _

/-- What is stored at a position. -/
theorem getElem?_stored {n : Nat} {stored : StoredRecord} (h : ledger.stored[n]? = some stored) :
    stored.seq = n ∧ ledger.records[n]? = some stored.record := by
  have hseq : (ledger.stored.map StoredRecord.seq)[n]? = some stored.seq := by
    rw [List.getElem?_map, h]
    rfl
  rw [Ledger.stored, storedFrom_map_seq, List.getElem?_eq_some_iff] at hseq
  obtain ⟨_, hseq⟩ := hseq
  rw [List.getElem_range', Nat.one_mul, Nat.zero_add] at hseq
  refine ⟨hseq.symm, ?_⟩
  rw [← stored_map_record, List.getElem?_map, h]
  rfl

/-- The last position. -/
theorem getLast?_stored_seq {last : StoredRecord} (h : ledger.stored.getLast? = some last) :
    last.seq + 1 = ledger.stored.length := by
  have hseq := @storedFrom_map_seq prims 0 none ledger.entries
  obtain ⟨init, hinit⟩ := List.getLast?_eq_some_iff.mp h
  change ledger.stored.map _ = _ at hseq
  rw [← length_stored, hinit, List.length_append, List.length_singleton, List.map_append,
    List.range'_1_concat, Nat.zero_add] at hseq
  have hlast := (List.append_inj' hseq rfl).2
  rw [List.map_singleton, List.cons.injEq] at hlast
  rw [hinit, List.length_append, hlast.1]
  rfl

variable {ledger}

/-- Records of a stream are the records of its ledger. -/
theorem recordAt_eq (hp : prims.RoundTrips) (h : Holds prims v ledger.frames) (stream : StreamId)
    {i : Nat} (hi : i < ledger.stored.length) :
    v.recordAt prims stream i = .ok ledger.stored[i] := by
  rw [length_stored] at hi
  rw [h.recordAt_eq (by rw [length_frames]; exact hi)]
  have := ledger.grown.decodes hp stream hi (by rwa [length_storedFrom])
  simp only [frames, List.getElem_map]
  exact this

/-- A read returns a slice. -/
theorem readFrom_eq (hp : prims.RoundTrips) (h : Holds prims v ledger.frames) (stream : StreamId)
    (fromSeq limit : Nat) :
    v.readFrom prims stream fromSeq limit = .ok ((ledger.stored.drop fromSeq).take limit) := by
  refine readFrom_eq_slice ?_ (fun i hi ↦ recordAt_eq hp h stream hi) fromSeq limit
  rw [h.nextSeq_eq, length_frames, length_stored]

/-- The chain verifies over every range. -/
theorem verify_eq (hp : prims.RoundTrips) (h : Holds prims v ledger.frames) (stream : StreamId)
    {fromSeq toSeq : Nat} (hft : fromSeq ≤ toSeq) (hto : toSeq < ledger.stored.length) :
    v.verify prims stream fromSeq toSeq = .ok () := by
  have hn : v.state.nextSeq = ledger.stored.length := by
    rw [h.nextSeq_eq, length_frames, length_stored]
  rw [verify_eq_ok_iff hft (by rw [hn]; exact hto)]
  refine ⟨_, _, predecessorHash_eq (fun _ hs ↦ h.fetch stream hs) ?_,
    recordsBetween_eq_slice (fun i hi ↦ recordAt_eq hp h stream hi) hto, ?_⟩
  · rw [length_frames, ← length_stored]
    omega
  -- the slice is a piece of the whole chain
  have hchain : Chained none ledger.stored := chained_storedFrom 0 none ledger.entries
  rw [← List.take_append_drop fromSeq ledger.stored] at hchain
  have hdrop := (linked_append.mp hchain).2
  rw [← List.take_append_drop (toSeq + 1 - fromSeq) (ledger.stored.drop fromSeq)] at hdrop
  have htip : chainTip none (ledger.stored.take fromSeq) =
      lastHash prims (ledger.frames.take fromSeq) := by
    rw [stored, storedFrom_take, chainTip_storedFrom, lastHash_eq_tip, frames, List.map_take]
  rw [← htip]
  exact (linked_append.mp hdrop).1

end Ledger

end Koalisi.Persistence
