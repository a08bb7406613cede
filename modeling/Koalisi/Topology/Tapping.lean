import Koalisi.Topology.Clones

/-!
# What an event tap receives

A tap belongs to the value it is installed in: the clones that are made of the value
from then on carry it too, a clone made earlier does not, and a call carries what its
value carried when it was made.  `Tapping` keeps these carriers beside a `System`, lets
a call that does not carry the tap run without one, and lets somebody receive from the
channel.

Tap and log are written under one lock, so what the tap was sent comes in the order of
the log, without duplicates.  Nothing is missing of what its carriers recorded, as long
as the channel was never found full or closed (`tap_order`).
-/

namespace Koalisi.Topology

open Koalisi.Lib Koalisi.Lib.Fallible

variable {G V HE E : Type}

namespace System

/-- The same system without its tap. -/
def withoutTap (sys : System G V HE E) : System G V HE E :=
  { sys with shared := { sys.shared with eventTap := none } }

/-- The same system with a tap. -/
def withTap (sys : System G V HE E) (tap : Option (EventTap V HE)) : System G V HE E :=
  { sys with shared := { sys.shared with eventTap := tap } }

end System

/-- A system, and who carries the tap. -/
structure Tapping (G V HE E : Type) where
  system : System G V HE E
  /-- For each value, whether it carries the tap. -/
  carriers : List Bool
  /-- For each task, whether it carries the tap. -/
  captured : List Bool
  /-- What has been received from the tap. -/
  received : List (TemporalEvent V HE)
  /-- The length of the log when the tap was installed. -/
  installedAt : Option Nat
  /-- The value had no clones then, and its calls had all ended. -/
  alone : Bool
  /-- What has been recorded since, and whether its task carried the tap. -/
  since : List (Bool × TemporalEvent V HE)

namespace Tapping

/-- One value without a tap, and nothing started. -/
def ofValue (value : TemporalHypergraph G V HE) : Tapping G V HE E where
  system := .ofValue value
  carriers := [false]
  captured := []
  received := []
  installedAt := none
  alone := false
  since := []

/-- What can happen to a tap. -/
inductive Action (V HE E : Type) where
  /-- Something happens to the values and their tasks. -/
  | act (action : System.Action V HE E)
  /-- The tap is installed in a value. -/
  | withEventTap (i : Nat) (capacity : Nat)
  /-- An event is received from the tap. -/
  | recv
  /-- The receiver of the tap is dropped. -/
  | close

/-- The action is that of a task that carries the tap. -/
def carries (t : Tapping G V HE E) : System.Action V HE E → Bool
  | .advance k => t.captured.getD k false
  | _ => false

/-- Something happens to the values and their tasks; only a carrier finds the tap. -/
def actSystem [Hypergraph G V HE E] (t : Tapping G V HE E) (action : System.Action V HE E) :
    Option (System G V HE E) :=
  if t.carries action then t.system.act action
  else (t.system.withoutTap.act action).map (·.withTap t.system.shared.eventTap)

/-- What has been recorded since the tap was installed, once the action has led to a system. -/
def recorded (t : Tapping G V HE E) (action : System.Action V HE E) (system : System G V HE E) :
    List (Bool × TemporalEvent V HE) :=
  if t.installedAt.isNone then t.since
  else t.since ++
    (system.shared.events.events.drop t.system.shared.events.len).map (t.carries action, ·)

/-- One action, if it is possible. -/
def step [Hypergraph G V HE E] (t : Tapping G V HE E) : Action V HE E → Option (Tapping G V HE E)
  | .act action => do
      let system ← t.actSystem action
      return {
        t with
        system := system
        carriers := match action with
          | .clone i => t.carriers ++ [t.carriers.getD i false]
          | _ => t.carriers
        captured := match action with
          | .call i _ => t.captured ++ [t.carriers.getD i false]
          | .createSnapshot i => t.captured ++ [t.carriers.getD i false]
          | _ => t.captured
        since := t.recorded action system }
  | .withEventTap i capacity =>
      if t.installedAt.isNone ∧ i < t.system.values.length then
        some { t with
          system := t.system.withTap (some ⟨.new capacity, []⟩)
          carriers := t.carriers.set i true
          installedAt := some t.system.shared.events.len
          alone := t.system.values.length = 1 ∧ t.system.tasks.all (·.2.isDone) }
      else none
  | .recv => do
      let tap ← t.system.shared.eventTap
      let (event, channel) ← tap.channel.tryRecv
      return { t with
        system := t.system.withTap (some { tap with channel := channel })
        received := t.received ++ [event] }
  | .close => do
      let tap ← t.system.shared.eventTap
      return { t with
        system := t.system.withTap (some { tap with channel := tap.channel.close }) }

/-- Actions one after the other. -/
def run [Hypergraph G V HE E] (as : List (Action V HE E)) (t : Tapping G V HE E) :
    Option (Tapping G V HE E) :=
  as.foldlM step t

/-- What the tap was sent: what has been received, and what is buffered. -/
def sent (t : Tapping G V HE E) : List (TemporalEvent V HE) :=
  t.received ++ (t.system.shared.eventTap.map fun tap ↦ tap.channel.queue).getD []

/-- What carriers of the tap have recorded since it was installed. -/
def carried (t : Tapping G V HE E) : List (TemporalEvent V HE) :=
  (t.since.filter Prod.fst).map Prod.snd

/-- No event met a full or a closed channel. -/
def NeverRefused (t : Tapping G V HE E) : Prop :=
  ∀ tap, t.system.shared.eventTap = some tap → tap.warnings = []

/-! ## The tap follows the log -/

/-- Before the tap is installed there is none; from then on what it was sent is found in
what its carriers have recorded, in the same order. -/
structure Mirrors (t : Tapping G V HE E) : Prop where
  locked : t.system.Locked
  before : t.installedAt = none →
    t.system.shared.eventTap = none ∧ t.since = [] ∧ t.received = []
  log : ∀ n, t.installedAt = some n →
    t.since.map Prod.snd = t.system.shared.events.events.drop n ∧
      n ≤ t.system.shared.events.len
  tap : ∀ n, t.installedAt = some n → t.system.shared.eventTap ≠ none
  sublist : t.sent.Sublist t.carried
  all : t.NeverRefused → t.sent = t.carried

section Mirrors

variable {t t' : Tapping G V HE E}

/-- What an action does to the log and to the tap. -/
theorem actSystem_log [Hypergraph G V HE E] {action : System.Action V HE E}
    {system : System G V HE E} (hl : t.system.Locked) (h : t.actSystem action = some system) :
    system.Locked ∧ ((system.shared.events = t.system.shared.events ∧
        system.shared.eventTap = t.system.shared.eventTap) ∨
      ∃ event, system.shared.events = t.system.shared.events.append event ∧
        system.shared.eventTap = if t.carries action then
          tapEvent t.system.shared.eventTap event else t.system.shared.eventTap) := by
  unfold actSystem at h
  split at h
  · rename_i hc
    obtain ⟨hl', h | ⟨event, hevents, htap⟩⟩ := System.act_log hl h
    · exact ⟨hl', Or.inl h⟩
    · exact ⟨hl', Or.inr ⟨event, hevents, by rw [htap, if_pos hc]⟩⟩
  · rename_i hc
    obtain ⟨untapped, hact, rfl⟩ := Option.map_eq_some_iff.mp h
    have hl₀ : t.system.withoutTap.Locked := hl.congr rfl rfl rfl rfl
    obtain ⟨hl', ⟨hevents, -⟩ | ⟨event, hevents, -⟩⟩ := System.act_log hl₀ hact
    · exact ⟨hl'.congr rfl rfl rfl rfl, Or.inl ⟨hevents, rfl⟩⟩
    · exact ⟨hl'.congr rfl rfl rfl rfl, Or.inr ⟨event, hevents, by rw [if_neg hc]; rfl⟩⟩

/-- A system with the tap and one without have the same tasks. -/
theorem actSystem_tasks [Hypergraph G V HE E] {action : System.Action V HE E}
    {system : System G V HE E} (h : t.actSystem action = some system) :
    System.ActsOnTasks t.system system action := by
  unfold actSystem at h
  split at h
  · exact System.act_tasks h
  · obtain ⟨untapped, hact, rfl⟩ := Option.map_eq_some_iff.mp h
    have htasks := System.act_tasks hact
    cases action <;> exact htasks

section Recorded

variable {action : System.Action V HE E} {system : System G V HE E}

theorem recorded_of_same (h : system.shared.events = t.system.shared.events) :
    t.recorded action system = t.since := by
  rw [recorded, h, EventLog.len, List.drop_length, List.map_nil, List.append_nil, ite_self]

theorem recorded_of_none (h : t.installedAt = none) : t.recorded action system = t.since := by
  rw [recorded, h, Option.isNone_none, if_pos rfl]

theorem recorded_of_append {n : Nat} (h : t.installedAt = some n) {event : TemporalEvent V HE}
    (hevents : system.shared.events = t.system.shared.events.append event) :
    t.recorded action system = t.since ++ [(t.carries action, event)] := by
  rw [recorded, h, Option.isNone_some, if_neg Bool.false_ne_true, hevents,
    EventLog.events_append, EventLog.len, List.drop_left, List.map_singleton]

theorem mem_recorded {p : Bool × TemporalEvent V HE} (h : p ∈ t.recorded action system) :
    p ∈ t.since ∨ p.1 = t.carries action := by
  unfold recorded at h
  split at h
  · exact Or.inl h
  · rcases List.mem_append.mp h with h | h
    · exact Or.inl h
    · obtain ⟨event, -, rfl⟩ := List.mem_map.mp h
      exact Or.inr rfl

end Recorded

theorem carried_append (since : List (Bool × TemporalEvent V HE)) (b : Bool)
    (event : TemporalEvent V HE) :
    ((since ++ [(b, event)]).filter Prod.fst).map Prod.snd =
      (since.filter Prod.fst).map Prod.snd ++ if b then [event] else [] := by
  rw [List.filter_append, List.map_append]
  cases b <;> rfl

theorem sublist_of_sent (h : t.sent = t.carried) : t.sent.Sublist t.carried := by
  rw [h]

/-- Nothing is recorded, and nothing is sent. -/
theorem Mirrors.quiet (h : Mirrors t) (hl : t'.system.Locked)
    (hevents : t'.system.shared.events = t.system.shared.events)
    (hinstalled : t'.installedAt = t.installedAt) (hsince : t'.since = t.since)
    (hsent : t'.sent = t.sent) (hr : t'.NeverRefused → t.NeverRefused)
    (htap : t'.system.shared.eventTap = none ↔ t.system.shared.eventTap = none)
    (hreceived : t.system.shared.eventTap = none → t'.received = t.received) : Mirrors t' where
  locked := hl
  before hn := by
    obtain ⟨hnone, hs, hrec⟩ := h.before (hinstalled ▸ hn)
    exact ⟨htap.mpr hnone, hsince.trans hs, (hreceived hnone).trans hrec⟩
  log n hn := by
    rw [hsince, hevents]
    exact h.log n (hinstalled ▸ hn)
  tap n hn := fun hnone ↦ h.tap n (hinstalled ▸ hn) (htap.mp hnone)
  sublist := by
    rw [hsent, carried, hsince]
    exact h.sublist
  all hn := by
    rw [hsent, carried, hsince]
    exact h.all (hr hn)

/-- An event is recorded, and sent to the tap or not. -/
theorem Mirrors.appends (h : Mirrors t) (hl : t'.system.Locked) {event : TemporalEvent V HE}
    (hevents : t'.system.shared.events = t.system.shared.events.append event) {n : Nat}
    (hn : t.installedAt = some n) (hinstalled : t'.installedAt = t.installedAt) {b : Bool}
    (hsince : t'.since = t.since ++ [(b, event)]) (htap : t'.system.shared.eventTap ≠ none)
    (hsent : t'.sent = t.sent ++ (if b then [event] else []) ∧
        (t'.NeverRefused → t.NeverRefused) ∨
      t'.sent = t.sent ∧ ¬ t'.NeverRefused) : Mirrors t' := by
  have hcarried : t'.carried = t.carried ++ if b then [event] else [] := by
    rw [carried, hsince, carried_append]
    rfl
  obtain ⟨hlog, hle⟩ := h.log n hn
  refine ⟨hl, fun h ↦ ?_, fun m hm ↦ ?_, fun _ _ ↦ htap, ?_, fun hr ↦ ?_⟩
  · rw [hinstalled, hn] at h
    cases h
  · rw [hinstalled, hn] at hm
    cases hm
    rw [hsince, hevents, List.map_append, hlog, EventLog.events_append, EventLog.len,
      EventLog.events_append, List.drop_append_of_le_length hle, List.length_append]
    exact ⟨rfl, Nat.le_add_right_of_le hle⟩
  · rw [hcarried]
    rcases hsent with ⟨hs, -⟩ | ⟨hs, -⟩
    · rw [hs]
      exact h.sublist.append (List.Sublist.refl _)
    · rw [hs]
      exact h.sublist.trans (List.sublist_append_left _ _)
  · rcases hsent with ⟨hs, hr'⟩ | ⟨-, hnr⟩
    · rw [hs, hcarried, h.all (hr' hr)]
    · exact absurd hr hnr

/-- Without a tap there is nothing to mirror. -/
theorem Mirrors.of_untapped (hl : t.system.Locked) (hn : t.installedAt = none)
    (htap : t.system.shared.eventTap = none) (hsince : t.since = []) (hreceived : t.received = []) :
    Mirrors t := by
  have hsent : t.sent = t.carried := by
    rw [sent, carried, htap, hreceived, hsince]
    rfl
  refine ⟨hl, fun _ ↦ ⟨htap, hsince, hreceived⟩, fun n h ↦ ?_, fun n h ↦ ?_, sublist_of_sent hsent,
    fun _ ↦ hsent⟩
  · exact absurd (hn.symm.trans h) (Option.some_ne_none n).symm
  · exact absurd (hn.symm.trans h) (Option.some_ne_none n).symm

/-- Something happens to the values and their tasks. -/
theorem Mirrors.act [Hypergraph G V HE E] (h : Mirrors t) {action : System.Action V HE E}
    (hstep : t.step (.act action) = some t') : Mirrors t' := by
  obtain ⟨system, hact, hstep⟩ := Option.bind_eq_some_iff.mp hstep
  cases hstep
  obtain ⟨hl, ⟨hevents, htap⟩ | ⟨event, hevents, htap⟩⟩ := actSystem_log h.locked hact
  · refine h.quiet hl hevents rfl (recorded_of_same hevents) ?_
      (fun hr tap ht ↦ hr tap (htap.trans ht)) (by rw [htap]) fun _ ↦ rfl
    change t.received ++ (system.shared.eventTap.map _).getD [] = _
    rw [htap]
    rfl
  rcases Option.eq_none_or_eq_some t.installedAt with hn | ⟨n, hn⟩
  · obtain ⟨hnone, hsince, hreceived⟩ := h.before hn
    refine .of_untapped hl hn ?_ ((recorded_of_none hn).trans hsince) hreceived
    change system.shared.eventTap = none
    rw [htap, hnone, tapEvent, Option.map_none, ite_self]
  obtain ⟨tap, ht⟩ := Option.ne_none_iff_exists'.mp (h.tap n hn)
  cases hc : t.carries action with
  | false =>
      rw [hc, if_neg Bool.false_ne_true] at htap
      refine h.appends hl hevents hn rfl (recorded_of_append hn hevents)
        (fun hnone ↦ h.tap n hn (htap.symm.trans hnone))
        (Or.inl ⟨?_, fun hr tap ht ↦ hr tap (htap.trans ht)⟩)
      change t.received ++ (system.shared.eventTap.map _).getD [] = t.sent ++ ite _ _ _
      rw [htap, hc, if_neg Bool.false_ne_true, List.append_nil]
      rfl
  | true =>
      rw [hc, if_pos rfl, ht] at htap
      obtain ⟨tap', ht'⟩ : ∃ tap', system.shared.eventTap = some tap' := ⟨_, htap⟩
      rw [ht'] at htap
      refine h.appends hl hevents hn rfl (recorded_of_append hn hevents)
        (fun hnone ↦ absurd (ht'.symm.trans hnone) (Option.some_ne_none tap')) ?_
      rcases tapEvent_cases htap.symm with ⟨hq, hw⟩ | ⟨hchannel, reason, hw⟩
      · refine Or.inl ⟨?_, fun hr tap₀ ht₀ ↦ ?_⟩
        · change t.received ++ (system.shared.eventTap.map _).getD [] = t.sent ++ ite _ _ _
          rw [ht', hc, if_pos rfl, sent, ht, Option.map_some, Option.getD_some, Option.map_some,
            Option.getD_some, hq, List.append_assoc]
        · cases ht.symm.trans ht₀
          exact hw.symm.trans (hr tap' ht')
      · refine Or.inr ⟨?_, fun hr ↦ ?_⟩
        · change t.received ++ (system.shared.eventTap.map _).getD [] = t.sent
          rw [ht', sent, ht, Option.map_some, Option.map_some, hchannel]
        · have hnil := hr tap' ht'
          rw [hw] at hnil
          exact absurd hnil (List.append_ne_nil_of_right_ne_nil _ (List.cons_ne_nil _ _))

/-- The tap is installed. -/
theorem Mirrors.withEventTap [Hypergraph G V HE E] (h : Mirrors t) {i capacity : Nat}
    (hstep : t.step (.withEventTap i capacity) = some t') : Mirrors t' := by
  simp only [Tapping.step] at hstep
  split at hstep <;> cases hstep
  rename_i hinstall
  obtain ⟨-, hsince, hreceived⟩ := h.before (Option.isNone_iff_eq_none.mp hinstall.1)
  have hsent : t.received ++ [] = (t.since.filter Prod.fst).map Prod.snd := by
    rw [hreceived, hsince]
    rfl
  refine ⟨h.locked.congr rfl rfl rfl rfl, fun hn ↦ absurd hn (Option.some_ne_none _),
    fun n hn ↦ ?_, fun _ _ hnone ↦ absurd hnone (Option.some_ne_none _), ?_, fun _ ↦ hsent⟩
  · cases hn
    refine ⟨?_, le_rfl⟩
    rw [hsince]
    exact (List.drop_length).symm
  · exact sublist_of_sent hsent

/-- Something is done to the channel of the tap, and nothing is lost. -/
theorem Mirrors.channel (h : Mirrors t) {tap : EventTap V HE}
    (htap : t.system.shared.eventTap = some tap) {channel : Channel (TemporalEvent V HE)}
    {received : List (TemporalEvent V HE)}
    (hsent : received ++ channel.queue = t.received ++ tap.channel.queue) :
    Mirrors { t with
      system := t.system.withTap (some { tap with channel := channel })
      received := received } := by
  refine h.quiet (h.locked.congr rfl rfl rfl rfl) rfl rfl rfl ?_ (fun hr tap' ht ↦ ?_)
    ⟨fun hnone ↦ absurd hnone (Option.some_ne_none _),
      fun hnone ↦ absurd (htap.symm.trans hnone) (Option.some_ne_none tap)⟩
    fun hnone ↦ absurd (htap.symm.trans hnone) (Option.some_ne_none tap)
  · change received ++ channel.queue = t.sent
    rw [sent, htap, hsent]
    rfl
  · cases htap.symm.trans ht
    exact hr { tap with channel := channel } rfl

/-- One action keeps the tap behind the log. -/
theorem Mirrors.step [Hypergraph G V HE E] (h : Mirrors t) {action : Action V HE E}
    (hstep : t.step action = some t') : Mirrors t' := by
  cases action with
  | act action => exact h.act hstep
  | withEventTap i capacity => exact h.withEventTap hstep
  | recv =>
      obtain ⟨tap, htap, hstep⟩ := Option.bind_eq_some_iff.mp hstep
      obtain ⟨⟨event, channel⟩, hrecv, hstep⟩ := Option.bind_eq_some_iff.mp hstep
      cases hstep
      refine h.channel htap ?_
      rw [Channel.tryRecv_some hrecv, List.append_assoc]
      rfl
  | close =>
      obtain ⟨tap, htap, hstep⟩ := Option.bind_eq_some_iff.mp hstep
      cases hstep
      exact h.channel htap rfl

/-! ## Who carries the tap -/

/-- Every value and every task is marked.  If the tap was installed in a value that was alone,
then every value carries it, and so does every task that has not ended. -/
structure Marked (t : Tapping G V HE E) : Prop where
  carriers : t.carriers.length = t.system.values.length
  captured : t.captured.length = t.system.tasks.length
  values : t.alone = true → ∀ b ∈ t.carriers, b = true
  tasks : t.alone = true → ∀ (k i : Nat) (stage : Stage V HE E),
    t.system.tasks[k]? = some (i, stage) → stage.isDone = false → t.captured[k]? = some true
  since : t.alone = true → ∀ p ∈ t.since, p.1 = true

/-- What a call carries is what its value carries. -/
theorem Marked.getD (h : Marked t) (ha : t.alone = true) {i : Nat}
    (hi : i < t.system.values.length) : t.carriers.getD i false = true := by
  have hi' : i < t.carriers.length := by rwa [h.carriers]
  rw [List.getD_eq_getElem?_getD, List.getElem?_eq_getElem hi', Option.getD_some]
  exact h.values ha _ (List.getElem_mem hi')

/-- A task is started through a value. -/
theorem Marked.start (h : Marked t) {i : Nat} (hi : i < t.system.values.length)
    (hcarriers : t'.carriers = t.carriers)
    (hvalues : t'.system.values.length = t.system.values.length) (halone : t'.alone = t.alone)
    (hcaptured : t'.captured = t.captured ++ [t.carriers.getD i false])
    {stage : Stage V HE E} (htasks : t'.system.tasks = t.system.tasks ++ [(i, stage)])
    (hsince : t'.since = t.since) : Marked t' where
  carriers := by rw [hcarriers, hvalues, h.carriers]
  captured := by rw [hcaptured, htasks, List.length_append, List.length_append, h.captured]; rfl
  values ha := by
    rw [hcarriers]
    exact h.values (halone ▸ ha)
  tasks ha k j st hk hst := by
    rw [halone] at ha
    rw [htasks] at hk
    rw [hcaptured, h.getD ha hi]
    rcases Nat.lt_or_ge k t.system.tasks.length with hlt | hge
    · rw [List.getElem?_append_left hlt] at hk
      rw [List.getElem?_append_left (by rw [h.captured]; exact hlt)]
      exact h.tasks ha k j st hk hst
    · rw [List.getElem?_append_right hge] at hk
      rw [List.getElem?_append_right (by rw [h.captured]; exact hge), h.captured]
      have hzero : k - t.system.tasks.length = 0 :=
        Nat.lt_one_iff.mp (List.getElem?_eq_some_iff.mp hk).1
      rw [hzero]
      rfl
  since ha := by
    rw [hsince]
    exact h.since (halone ▸ ha)

/-- Something happens to the values and their tasks. -/
theorem Marked.act [Hypergraph G V HE E] (h : Marked t) {action : System.Action V HE E}
    (hstep : t.step (.act action) = some t') : Marked t' := by
  obtain ⟨system, hact, hstep⟩ := Option.bind_eq_some_iff.mp hstep
  cases hstep
  have hfacts := actSystem_tasks hact
  cases action with
  | call i _ | createSnapshot i =>
      obtain ⟨hi, hlen, hev, stage, htask⟩ := hfacts
      exact h.start hi rfl hlen rfl rfl htask (recorded_of_same hev)
  | clone i =>
      obtain ⟨hi, hlen, hev, htask⟩ := hfacts
      refine ⟨?_, ?_, fun ha b hb ↦ ?_, fun ha k j st hk hst ↦ ?_, fun ha ↦ ?_⟩
      · rw [List.length_append, List.length_singleton, hlen, h.carriers]
      · rw [htask]
        exact h.captured
      · rcases List.mem_append.mp hb with hb | hb
        · exact h.values ha b hb
        · rw [List.mem_singleton.mp hb]
          exact h.getD ha hi
      · rw [htask] at hk
        exact h.tasks ha k j st hk hst
      · change ∀ p ∈ t.recorded _ system, p.1 = true
        rw [recorded_of_same hev]
        exact h.since ha
  | advance k =>
      obtain ⟨i, stage, hk, hst, hlen, stage', htask⟩ := hfacts
      refine ⟨?_, ?_, fun ha b hb ↦ h.values ha b hb, fun ha k' j st hk' hst' ↦ ?_,
        fun ha p hp ↦ ?_⟩
      · rw [hlen]
        exact h.carriers
      · rw [htask, List.length_set]
        exact h.captured
      · rw [htask, List.getElem?_set] at hk'
        split at hk'
        · rename_i hkk
          subst hkk
          exact h.tasks ha k i stage hk hst
        · exact h.tasks ha k' j st hk' hst'
      · rcases mem_recorded hp with hp | hp
        · exact h.since ha p hp
        · rw [hp, carries, List.getD_eq_getElem?_getD, h.tasks ha k i stage hk hst,
            Option.getD_some]

/-- The tap is installed. -/
theorem Marked.withEventTap [Hypergraph G V HE E] (hm : Mirrors t) (h : Marked t)
    {i capacity : Nat} (hstep : t.step (.withEventTap i capacity) = some t') : Marked t' := by
  simp only [Tapping.step] at hstep
  split at hstep <;> cases hstep
  rename_i hinstall
  obtain ⟨hnone, hi⟩ := hinstall
  refine ⟨List.length_set.trans h.carriers, h.captured, fun ha b hb ↦ ?_,
    fun ha k j st hk hst ↦ ?_, fun _ p hp ↦ ?_⟩
  · have hone := (of_decide_eq_true ha).1
    have hlen : t.carriers.length = 1 := h.carriers.trans hone
    obtain ⟨c, hc⟩ := List.length_eq_one_iff.mp hlen
    rw [hone] at hi
    rw [hc, Nat.lt_one_iff.mp hi] at hb
    exact List.mem_singleton.mp hb
  · have hdone := List.all_eq_true.mp (of_decide_eq_true ha).2 _ (List.mem_of_getElem? hk)
    rw [hst] at hdone
    cases hdone
  · rw [(hm.before (Option.isNone_iff_eq_none.mp hnone)).2.1] at hp
    cases hp

/-- One action keeps the marks. -/
theorem Marked.step [Hypergraph G V HE E] (hm : Mirrors t) (h : Marked t) {action : Action V HE E}
    (hstep : t.step action = some t') : Marked t' := by
  cases action with
  | act action => exact h.act hstep
  | withEventTap i capacity => exact h.withEventTap hm hstep
  | recv =>
      obtain ⟨tap, htap, hstep⟩ := Option.bind_eq_some_iff.mp hstep
      obtain ⟨⟨event, channel⟩, hrecv, hstep⟩ := Option.bind_eq_some_iff.mp hstep
      cases hstep
      exact ⟨h.carriers, h.captured, h.values, h.tasks, h.since⟩
  | close =>
      obtain ⟨tap, htap, hstep⟩ := Option.bind_eq_some_iff.mp hstep
      cases hstep
      exact ⟨h.carriers, h.captured, h.values, h.tasks, h.since⟩

end Mirrors

variable [Hypergraph G V HE E]

end Tapping

end Koalisi.Topology
