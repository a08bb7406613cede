import Koalisi.Persistence.Opening

/-!
# A store is six independent streams

Each stream has a directory and a state of its own.  Appending to one leaves the
others alone; opening a store scans each directory by itself, and dropping one
lets each writer write out what it still holds.
-/

namespace Koalisi.Persistence

open Koalisi.Lib.Fallible

variable {prims : Primitives}

namespace FileEventStore

/-! ## One stream of a store -/

@[simp] theorem setVolume_config (store : FileEventStore) (stream : StreamId) (v : Volume) :
    (store.setVolume stream v).config = store.config := rfl

@[simp] theorem volume_setVolume (store : FileEventStore) (stream : StreamId) (v : Volume) :
    (store.setVolume stream v).volume stream = v := by
  change Volume.mk (Function.update store.disk _ _ _) (Function.update store.streams _ _ _) = v
  rw [Function.update_self, Function.update_self]

theorem volume_setVolume_of_ne (store : FileEventStore) {stream t : StreamId} (v : Volume)
    (h : t ≠ stream) : (store.setVolume stream v).volume t = store.volume t := by
  change Volume.mk (Function.update store.disk _ _ _) (Function.update store.streams _ _ _) = _
  rw [Function.update_of_ne h,
    Function.update_of_ne fun hdir ↦ h (StreamId.asDirName_injective hdir)]
  rfl

variable {store store' : FileEventStore} {faults : Faults} {stream : StreamId} {record : Record}

theorem append_eq_ok {head : StreamHead} :
    store.append prims faults stream record = .ok head store' ↔
      ∃ v, Volume.append prims store.config faults stream record (store.volume stream) =
        .ok head v ∧ store.setVolume stream v = store' := focus_eq_ok

theorem append_eq_error {e : PersistenceError} :
    store.append prims faults stream record = .error e store' ↔
      ∃ v, Volume.append prims store.config faults stream record (store.volume stream) =
        .error e v ∧ store.setVolume stream v = store' := focus_eq_error

theorem finalState_append : finalState (store.append prims faults stream record) =
    store.setVolume stream (finalState
      (Volume.append prims store.config faults stream record (store.volume stream))) :=
  finalState_focus

/-- An append leaves the other streams alone. -/
theorem append_frame {t : StreamId} (ht : t ≠ stream) :
    (finalState (store.append prims faults stream record)).volume t = store.volume t := by
  rw [finalState_append, volume_setVolume_of_ne store _ ht]

theorem append_config : (finalState (store.append prims faults stream record)).config =
    store.config := by
  rw [finalState_append, setVolume_config]

end FileEventStore

/-! ## Opening -/

theorem inDir_eq_ok {α : Type} {stream : StreamId} {x : EStateM PersistenceError Files α}
    {disk disk' : Disk} {a : α} : inDir stream x disk = .ok a disk' ↔
      ∃ files, x (disk stream.asDirName) = .ok a files ∧
        Function.update disk stream.asDirName files = disk' := focus_eq_ok

/-- Scanning a list of streams scans each directory as it was. -/
theorem scanStreams_ok {streams : List StreamId} (hnd : streams.Nodup) {disk disk' : Disk}
    {states : StreamId → StreamState} (h : scanStreams prims streams disk = .ok states disk') :
    (∀ s ∈ streams, scanStream prims s (disk s.asDirName) =
      .ok (states s) (disk' s.asDirName)) ∧
    ∀ s ∉ streams, disk' s.asDirName = disk s.asDirName := by
  induction streams generalizing disk states with
  | nil =>
      cases h
      exact ⟨fun s hs ↦ (nomatch hs), fun s _ ↦ rfl⟩
  | cons stream rest ih =>
      rw [List.nodup_cons] at hnd
      obtain ⟨state, d₁, hstate, hrest⟩ := bind_eq_ok.mp h
      obtain ⟨others, d₂, hothers, hpure⟩ := bind_eq_ok.mp hrest
      obtain ⟨files, hscan, rfl⟩ := inDir_eq_ok.mp hstate
      cases hpure
      obtain ⟨hin, hout⟩ := ih hnd.2 hothers
      have hne : ∀ s : StreamId, s ≠ stream → s.asDirName ≠ stream.asDirName :=
        fun s hs hdir ↦ hs (StreamId.asDirName_injective hdir)
      constructor
      · intro s hs
        by_cases hs' : s = stream
        · subst hs'
          rw [hout s hnd.1, Function.update_self, Function.update_self]
          exact hscan
        · have := hin s ((List.mem_cons.mp hs).resolve_left hs')
          rw [Function.update_of_ne (hne s hs')] at this
          rw [Function.update_of_ne hs']
          exact this
      · intro s hs
        rw [List.mem_cons, not_or] at hs
        rw [hout s hs.2, Function.update_of_ne (hne s hs.1)]

/-- Streams that can be scanned one by one can be scanned together. -/
theorem exists_scanStreams {streams : List StreamId} (hnd : streams.Nodup) {disk : Disk}
    (h : ∀ s ∈ streams, ∃ state files, scanStream prims s (disk s.asDirName) = .ok state files) :
    ∃ states disk', scanStreams prims streams disk = .ok states disk' := by
  induction streams generalizing disk with
  | nil => exact ⟨_, disk, rfl⟩
  | cons stream rest ih =>
      rw [List.nodup_cons] at hnd
      obtain ⟨state, files, hscan⟩ := h stream List.mem_cons_self
      have hin : inDir stream (scanStream prims stream) disk =
          .ok state (Function.update disk stream.asDirName files) :=
        inDir_eq_ok.mpr ⟨files, hscan, rfl⟩
      obtain ⟨others, disk', hothers⟩ := @ih hnd.2
        (Function.update disk stream.asDirName files) fun s hs ↦ by
          rw [Function.update_of_ne fun hdir ↦ hnd.1 (by
            rw [← StreamId.asDirName_injective hdir]
            exact hs)]
          exact h s (List.mem_cons_of_mem _ hs)
      exact ⟨_, disk', bind_eq_ok.mpr ⟨state, _, hin, bind_eq_ok.mpr ⟨others, disk', hothers,
        rfl⟩⟩⟩

/-- A store that is open has scanned each directory. -/
theorem FileEventStore.openOn_ok {config : FileStoreConfig} {disk disk' : Disk}
    {store : FileEventStore} (h : openOn prims config disk = .ok store disk') :
    disk' = store.disk ∧ store.config = config ∧ ∀ stream, scanStream prims stream
      (disk stream.asDirName) = .ok (store.volume stream).state (store.volume stream).files := by
  obtain ⟨states, d, hscan, hpure⟩ := bind_eq_ok.mp h
  cases hpure
  exact ⟨rfl, rfl, fun stream ↦
    (scanStreams_ok StreamId.nodup_all hscan).1 stream stream.mem_all⟩

/-- A store can be opened if each directory can be scanned. -/
theorem FileEventStore.exists_openOn (config : FileStoreConfig) {disk : Disk}
    (h : ∀ stream : StreamId,
      ∃ state files, scanStream prims stream (disk stream.asDirName) = .ok state files) :
    ∃ store, openOn prims config disk = .ok store store.disk := by
  obtain ⟨states, disk', hscan⟩ := exists_scanStreams StreamId.nodup_all fun s _ ↦ h s
  exact ⟨⟨disk', config, states⟩, bind_eq_ok.mpr ⟨states, disk', hscan, rfl⟩⟩

/-! ## Dropping -/

/-- Each writer writes to its own directory. -/
theorem FileEventStore.close_asDirName (store : FileEventStore) (stream : StreamId) :
    store.close stream.asDirName = (store.volume stream).close := by
  have hfold : ∀ (streams : List StreamId) (disk : Disk), streams.Nodup →
      (streams.foldl (fun disk s ↦
        Function.update disk s.asDirName (store.volume s).close) disk) stream.asDirName =
          if stream ∈ streams then (store.volume stream).close else disk stream.asDirName := by
    intro streams
    induction streams with
    | nil => intro disk _; rfl
    | cons s rest ih =>
        intro disk hnd
        rw [List.nodup_cons] at hnd
        rw [List.foldl_cons, ih _ hnd.2]
        by_cases hs : stream = s
        · subst hs
          rw [if_neg hnd.1, if_pos List.mem_cons_self, Function.update_self]
        · rw [Function.update_of_ne fun hdir ↦ hs (StreamId.asDirName_injective hdir)]
          simp only [List.mem_cons, hs, false_or]
  rw [FileEventStore.close, hfold _ _ StreamId.nodup_all, if_pos stream.mem_all]

end Koalisi.Persistence
