import Mathlib.Data.List.GetD
import Koalisi.Ingest.Handles
import Koalisi.Ingest.Pump

/-!
# Samples on their way

A pump, the monitors that its router has, and all who use these monitors, at once.  The pump asks
the token, takes a sample from the source, may sleep until the sample is due, sends it to its
monitor and waits for the acknowledgement; only then it asks again.  Between any two of these steps
monitors move, others send to them, and anything may be cancelled.

From one sample to the next the pump takes one turn of the pump that a `Setting` describes, for
what has happened to it meanwhile (`Flow.Traced`).  So what that pump delivers is what this one
delivers, and whatever it has delivered to a monitor was ingested there, in the order of the
stream, with its update on the bus (`flow_ingests_what_it_feeds`).
-/

namespace Koalisi.Ingest

open Koalisi.Decision (FloatingPoint)
open Koalisi.Lib Sample

variable {S M F : Type} [Sample S] [FloatingPoint F]

/-- Where the pump stands. -/
inductive FlowStage (S M : Type) where
  /-- It asks the token, and then the source. -/
  | selecting
  /-- A sample is not yet due. -/
  | sleeping (s : S)
  /-- A sample is due, and goes to a monitor. -/
  | sending (m : M) (s : S)
  /-- The monitor has not yet acknowledged the sample. -/
  | awaiting (m : M) (s : S) (request : Nat)
  | ended

def FlowStage.isEnded : FlowStage S M → Bool
  | .ended => true
  | _ => false

/-- A pump with the monitors of its router. -/
structure Flow (S M : Type) [Sample S] where
  pump : Pump S M
  stage : FlowStage S M
  cancelled : Bool
  monitors : M → MonitorTask S

namespace Flow

/-- What can happen. -/
inductive Action (S M : Type) where
  /-- The pump takes a step, so many nanoseconds after it was started. -/
  | pump (elapsed : Nat)
  | cancel
  /-- A monitor takes a step, or somebody else who uses it does. -/
  | monitor (m : M) (action : Mailbox.Action (MonitorCommand S))

def start (keyOf : M → Key S) (capacity : M → Nat) : Flow S M where
  pump := Setting.start
  stage := .selecting
  cancelled := false
  monitors m := spawnSampleMonitor (keyOf m) (capacity m)

/-- The pump ends. -/
def finish (f : Flow S M) (status : PumpStatus) : Flow S M :=
  { f with pump := { f.pump with status }, stage := .ended }

variable (w : Setting S M F)

/-- A sample is due: it goes to its monitor, or is dropped. -/
def arrive (f : Flow S M) (s : S) : Flow S M :=
  match w.router (key s) with
  | some m => { f with stage := .sending m s }
  | none => { f with
      pump := { f.pump with stats := { f.pump.stats with dropped := f.pump.stats.dropped + 1 } }
      stage := .selecting }

/-- The source is asked for a sample. -/
def pull (f : Flow S M) (elapsed : Nat) : Flow S M :=
  let asked := { f with pump := { f.pump with pulled := f.pump.pulled + 1 } }
  match w.source f.pump.pulled with
  | .failed => asked.finish .failed
  | .exhausted => asked.finish .returned
  | .sample s =>
      -- whoever is cancelled asleep sleeps: the answer says whether the sample is early
      match w.pace f.pump.baseTs ⟨false, elapsed, true, false⟩ s with
      | none => asked.finish .panicked
      | some (baseTs, early) =>
          let paced := { asked with pump := { asked.pump with baseTs } }
          if early then { paced with stage := .sleeping s } else paced.arrive w s

variable [DecidableEq M]

/-- The sample is sent.  A full channel makes the pump wait, and a closed one makes it fail. -/
def send (f : Flow S M) (m : M) (s : S) : Option (Flow S M) :=
  ((f.monitors m).step Monitored.handle (.request (.feed s))).map fun task ↦
    let sent := { f with monitors := Function.update f.monitors m task }
    if (f.monitors m).rx.closed then sent.finish .failed
    else { sent with stage := .awaiting m s (f.monitors m).sent.length }

/-- The pump hears from the monitor, or that it will not hear from it. -/
def hear (f : Flow S M) (m : M) (s : S) (request : Nat) : Option (Flow S M) :=
  ((f.monitors m).answers.find? fun a ↦ a.1 = request).map fun answer ↦
    match answer.2 with
    | none => f.finish .failed
    | some _ => { f with
        pump := { f.pump with
          stats := { f.pump.stats with fed := f.pump.stats.fed + 1 }
          deliveries := f.pump.deliveries ++ [(m, s)] }
        stage := .selecting }

/-- A step of the pump. -/
def move (f : Flow S M) (elapsed : Nat) : Option (Flow S M) :=
  match f.stage with
  | .selecting => some (if f.cancelled then f.finish .returned else f.pull w elapsed)
  | .sleeping s => some (if f.cancelled then f.finish .returned else f.arrive w s)
  | .sending m s => f.send m s
  | .awaiting m s request => f.hear m s request
  | .ended => none

/-- The router keeps a handle of a monitor until the pump has ended. -/
def leavesHandle (f : Flow S M) (m : M) : Mailbox.Action (MonitorCommand S) → Bool
  | .dropHandle => f.stage.isEnded || decide (1 < (f.monitors m).handles)
  | _ => true

/-- One action, if it is possible. -/
def step (f : Flow S M) : Action S M → Option (Flow S M)
  | .pump elapsed => f.move w elapsed
  | .cancel => some { f with cancelled := true }
  | .monitor m action =>
      if f.leavesHandle m action then
        ((f.monitors m).step Monitored.handle action).map fun task ↦
          { f with monitors := Function.update f.monitors m task }
      else none

def run (actions : List (Action S M)) (f : Flow S M) : Option (Flow S M) :=
  actions.foldlM (step w) f

end Flow

/-! ## Turns -/

namespace Setting

variable (w : Setting S M F)

/-- A turn at some moment. -/
def turn (moment : Moment) (p : Pump S M) : Pump S M := { w with moment := fun _ ↦ moment }.step p

/-- The setting in which these are the moments. -/
def during (moments : List Moment) : Setting S M F :=
  { w with moment := fun n ↦ moments.getD n ⟨false, 0, false, false⟩ }

variable {w} {p : Pump S M}

theorem step_eq_turn (w : Setting S M F) (p : Pump S M) :
    w.step p = w.turn (w.moment p.pulled) p := rfl

/-- A pump that still runs was asked for a sample in every turn. -/
theorem pulled_run {n : Nat} (hrunning : (w.run n).status = .running) : (w.run n).pulled = n := by
  induction n with
  | zero => rfl
  | succ n ih =>
      by_cases hbefore : (w.run n).status = .running
      · have hturn := step_turns (w := w) hbefore
        have hpulled := ih hbefore
        change (w.step (w.run n)).status = .running at hrunning
        change (w.step (w.run n)).pulled = n + 1
        generalize w.step (w.run n) = p' at hturn hrunning
        cases hturn with
        | cancelled _ => cases hrunning
        | failed _ => cases hrunning
        | exhausted _ _ => cases hrunning
        | panicked _ _ => cases hrunning
        | asleep _ _ _ => cases hrunning
        | fed _ _ _ _ _ => exact congrArg (· + 1) hpulled
        | gone _ => cases hrunning
        | dropped _ _ _ _ => exact congrArg (· + 1) hpulled
      · have hsame : w.run (n + 1) = w.run n := step_of_ne_running hbefore
        rw [hsame] at hrunning
        exact absurd hrunning hbefore

/-- Later moments do not count. -/
theorem run_during_append (moments more : List Moment) {n : Nat} (hn : n ≤ moments.length) :
    (w.during (moments ++ more)).run n = (w.during moments).run n := by
  induction n with
  | zero => rfl
  | succ n ih =>
      rw [run, run, ih (Nat.le_of_succ_le hn)]
      by_cases hrunning : ((w.during moments).run n).status = .running
      · rw [step_eq_turn, step_eq_turn]
        change w.turn _ _ = w.turn _ _
        rw [pulled_run hrunning]
        change w.turn ((moments ++ more).getD n _) _ = w.turn (moments.getD n _) _
        rw [List.getD_append _ _ _ _ hn]
      · rw [step_of_ne_running hrunning, step_of_ne_running hrunning]

/-- A pump after some turns, in which the token was found cancelled only if it was. -/
def Turned (w : Setting S M F) (cancelled : Bool) (p : Pump S M) : Prop :=
  ∃ moments : List Moment, p = (w.during moments).run moments.length ∧
    ∀ moment ∈ moments, moment.cancelled = true ∨ moment.cancelledAsleep = true → cancelled = true

theorem turned_start : w.Turned false start := ⟨[], rfl, fun _ h ↦ by cases h⟩

theorem Turned.cancel {cancelled : Bool} (h : w.Turned cancelled p) :
    w.Turned true p := by
  obtain ⟨moments, hrun, -⟩ := h
  exact ⟨moments, hrun, fun _ _ _ ↦ rfl⟩

/-- One turn more. -/
theorem Turned.turn {cancelled : Bool} (h : w.Turned cancelled p) (moment : Moment)
    (hrunning : p.status = .running)
    (hmoment : moment.cancelled = true ∨ moment.cancelledAsleep = true → cancelled = true) :
    w.Turned cancelled (w.turn moment p) := by
  obtain ⟨moments, rfl, hcancelled⟩ := h
  refine ⟨moments ++ [moment], ?_, fun mo hmo ↦ ?_⟩
  · rw [List.length_append, List.length_singleton, run,
      run_during_append moments [moment] (Nat.le_refl _), step_eq_turn, pulled_run hrunning]
    change _ = w.turn ((moments ++ [moment]).getD moments.length _) _
    rw [List.getD_append_right _ _ _ _ (Nat.le_refl _), Nat.sub_self]
    rfl
  · rcases List.mem_append.mp hmo with hmem | hmem
    · exact hcancelled mo hmem
    · obtain rfl := List.mem_singleton.mp hmem
      exact hmoment

/-- One turn more, in which nothing is cancelled. -/
theorem Turned.calm {cancelled : Bool} (h : w.Turned cancelled p) (hrunning : p.status = .running)
    (elapsed : Nat) (gone : Bool) :
    w.Turned cancelled (w.turn ⟨false, elapsed, false, gone⟩ p) :=
  h.turn _ hrunning fun hcancelled ↦ by rcases hcancelled with hc | hc <;> cases hc

/-! ### What a turn comes to -/

section

variable {elapsed : Nat} {asleep gone : Bool} {s : S}

theorem turn_of_cancelled (hrunning : p.status = .running) :
    w.turn ⟨true, elapsed, asleep, gone⟩ p = { p with status := .returned } := by
  rw [turn, step, hrunning]
  rfl

theorem turn_of_failed (hrunning : p.status = .running) (hsource : w.source p.pulled = .failed) :
    w.turn ⟨false, elapsed, asleep, gone⟩ p =
      { p with pulled := p.pulled + 1, status := .failed } := by
  rw [turn, step, hrunning]
  dsimp only
  rw [if_neg Bool.false_ne_true, hsource]

theorem turn_of_exhausted (hrunning : p.status = .running)
    (hsource : w.source p.pulled = .exhausted) :
    w.turn ⟨false, elapsed, asleep, gone⟩ p =
      { p with pulled := p.pulled + 1, status := .returned } := by
  rw [turn, step, hrunning]
  dsimp only
  rw [if_neg Bool.false_ne_true, hsource]

/-- With a sample it is the pace that decides. -/
theorem turn_of_sample (hrunning : p.status = .running) (hsource : w.source p.pulled = .sample s) :
    w.turn ⟨false, elapsed, asleep, gone⟩ p =
      match w.pace p.baseTs ⟨false, elapsed, asleep, gone⟩ s with
      | none => { p with pulled := p.pulled + 1, status := .panicked }
      | some (baseTs, true) => { p with pulled := p.pulled + 1, status := .returned, baseTs }
      | some (baseTs, false) =>
          w.route ⟨false, elapsed, asleep, gone⟩ s { p with pulled := p.pulled + 1, baseTs } := by
  rw [turn, step, hrunning]
  dsimp only
  rw [if_neg Bool.false_ne_true, hsource]
  rfl

/-- Whoever is not cancelled asleep wakes up. -/
theorem pace_awake {baseTs baseTs' : Option Int64} {early : Bool}
    (h : w.pace baseTs ⟨false, elapsed, true, false⟩ s = some (baseTs', early)) :
    w.pace baseTs ⟨false, elapsed, false, gone⟩ s = some (baseTs', false) := by
  rw [pace] at h ⊢
  split at h
  · cases h
    rfl
  · next speedFactor _ =>
      dsimp only
      by_cases hpos : (0.0 : F) < speedFactor
      · rw [if_neg (not_not_intro hpos)] at h ⊢
        obtain ⟨targetWall, hwall, h⟩ := Option.bind_eq_some_iff.mp h
        cases h
        exact Option.bind_eq_some_iff.mpr ⟨targetWall, hwall, by rw [Bool.and_false]; rfl⟩
      · rw [if_pos hpos] at h ⊢
        cases h
        rfl

end

end Setting

/-! ## What stays true -/

namespace Flow

variable {w : Setting S M F} {keyOf : M → Key S} {capacity : M → Nat} {f f' : Flow S M} {s : S}

/-- The pump is in the middle of a turn, with a sample that is to be routed. -/
def AtSample (w : Setting S M F) (f : Flow S M) (s : S) : Prop :=
  f.pump.status = .running ∧ ∃ p elapsed, p.status = .running ∧ w.Turned f.cancelled p ∧
    ∀ gone, w.turn ⟨false, elapsed, false, gone⟩ p = w.route ⟨false, elapsed, false, gone⟩ s f.pump

/-- The pump is one of a `Setting` after some turns, or in the middle of a turn. -/
def Traced (w : Setting S M F) (f : Flow S M) : Prop :=
  match f.stage with
  | .selecting => f.pump.status = .running ∧ w.Turned f.cancelled f.pump
  | .sleeping s => f.AtSample w s ∧
      ∃ p elapsed, p.status = .running ∧ w.Turned f.cancelled p ∧
        w.turn ⟨false, elapsed, true, false⟩ p = { f.pump with status := .returned }
  | .sending m s => w.router (key s) = some m ∧ f.AtSample w s
  | .awaiting m s _ => w.router (key s) = some m ∧ f.AtSample w s
  | .ended => f.pump.status ≠ .running ∧ w.Turned f.cancelled f.pump

theorem AtSample.cancel (h : f.AtSample w s) :
    AtSample w { f with cancelled := true } s := by
  obtain ⟨hrunning, p, elapsed, hp, hturned, hturn⟩ := h
  exact ⟨hrunning, p, elapsed, hp, hturned.cancel, hturn⟩

theorem Traced.cancel (h : f.Traced w) : Traced w { f with cancelled := true } := by
  obtain ⟨pump, stage, cancelled, monitors⟩ := f
  cases stage with
  | selecting => exact ⟨h.1, h.2.cancel⟩
  | sleeping s =>
      obtain ⟨hat, p, elapsed, hp, hturned, hturn⟩ := h
      exact ⟨hat.cancel, p, elapsed, hp, hturned.cancel, hturn⟩
  | sending m s => exact ⟨h.1, h.2.cancel⟩
  | awaiting m s request => exact ⟨h.1, h.2.cancel⟩
  | ended => exact ⟨h.1, h.2.cancel⟩

/-- A sample that is routed ends a turn. -/
theorem AtSample.turned (h : f.AtSample w s) (elapsed : Nat) (gone : Bool) :
    w.Turned f.cancelled (w.route ⟨false, elapsed, false, gone⟩ s f.pump) := by
  obtain ⟨-, p, elapsed, hp, hturned, hturn⟩ := h
  have hcalm := hturned.calm hp elapsed gone
  rw [hturn gone] at hcalm
  exact hcalm

theorem Traced.sending (h : f.Traced w) {m : M} (hstage : f.stage = .sending m s) :
    w.router (key s) = some m ∧ f.AtSample w s := by
  rw [Traced, hstage] at h
  exact h

theorem Traced.awaiting (h : f.Traced w) {m : M} {request : Nat}
    (hstage : f.stage = .awaiting m s request) :
    w.router (key s) = some m ∧ f.AtSample w s := by
  rw [Traced, hstage] at h
  exact h

theorem AtSample.arrive (h : f.AtSample w s) : (f.arrive w s).Traced w := by
  have hturned := h.turned 0 false
  rw [Setting.route] at hturned
  unfold Flow.arrive
  cases hrouter : w.router (key s) with
  | none =>
      rw [hrouter] at hturned
      exact ⟨h.1, hturned⟩
  | some m => exact ⟨hrouter, h⟩

theorem traced_pull (hrunning : f.pump.status = .running) (hturned : w.Turned f.cancelled f.pump)
    (elapsed : Nat) : (f.pull w elapsed).Traced w := by
  have hcalm := hturned.calm hrunning elapsed false
  unfold pull
  dsimp only
  cases hsource : w.source f.pump.pulled with
  | failed =>
      refine ⟨fun h ↦ (by cases h), ?_⟩
      rw [Setting.turn_of_failed hrunning hsource] at hcalm
      exact hcalm
  | exhausted =>
      refine ⟨fun h ↦ (by cases h), ?_⟩
      rw [Setting.turn_of_exhausted hrunning hsource] at hcalm
      exact hcalm
  | sample s =>
      dsimp only
      cases hpace : w.pace f.pump.baseTs ⟨false, elapsed, true, false⟩ s with
      | none =>
          refine ⟨fun h ↦ (by cases h), ?_⟩
          have hnone : w.pace f.pump.baseTs ⟨false, elapsed, false, false⟩ s = none :=
            Setting.pace_eq_none.mpr (Setting.pace_eq_none.mp hpace)
          rw [Setting.turn_of_sample hrunning hsource, hnone] at hcalm
          exact hcalm
      | some paced =>
          obtain ⟨baseTs, early⟩ := paced
          have hat : AtSample w { f with
              pump := { f.pump with pulled := f.pump.pulled + 1, baseTs } } s := by
            refine ⟨hrunning, f.pump, elapsed, hrunning, hturned, fun gone ↦ ?_⟩
            rw [Setting.turn_of_sample hrunning hsource, Setting.pace_awake hpace]
          cases early with
          | true =>
              refine ⟨hat, f.pump, elapsed, hrunning, hturned, ?_⟩
              rw [Setting.turn_of_sample hrunning hsource, hpace]
              rfl
          | false => exact hat.arrive

variable [DecidableEq M]

/-- What holds of a pump and its monitors, whatever happens. -/
structure Keeps (w : Setting S M F) (keyOf : M → Key S) (capacity : M → Nat) (f : Flow S M) :
    Prop where
  traced : f.Traced w
  /-- Every monitor runs as if it were alone. -/
  monitors : ∀ m, ∃ actions, Mailbox.run Monitored.handle actions
    (spawnSampleMonitor (keyOf m) (capacity m)) = some (f.monitors m)
  /-- What was delivered was handled, in this order. -/
  fed : ∀ m, (Setting.received f.pump.deliveries m).Sublist
    (samples ((f.monitors m).handled.map fun h ↦ h.2.op))
  /-- What is awaited was sent after all that was delivered. -/
  awaited : ∀ m s request, f.stage = .awaiting m s request →
    (f.monitors m).sent[request]? = some (request, .feed s) ∧
      (Setting.received f.pump.deliveries m).Sublist
        (samples (((f.monitors m).sent.take request).map Prod.snd))
  failed : f.pump.status = .failed →
    (∃ n, w.source n = .failed) ∨ ∃ m, (f.monitors m).stage = .stopped

theorem keeps_start : (start keyOf capacity : Flow S M).Keeps w keyOf capacity where
  traced := ⟨rfl, Setting.turned_start⟩
  monitors _ := ⟨[], rfl⟩
  fed _ := List.nil_sublist _
  awaited _ _ _ h := by cases h
  failed h := by cases h

omit [Sample S] in
theorem samples_mono {cmds cmds' : List (MonitorCommand S)} (h : cmds <+: cmds') :
    samples cmds <+: samples cmds' := by
  obtain ⟨rest, rfl⟩ := h
  rw [samples_append]
  exact List.prefix_append _ _

/-- A monitor moves on. -/
theorem Keeps.grow (h : f.Keeps w keyOf capacity) {m : M}
    {action : Mailbox.Action (MonitorCommand S)} {task : MonitorTask S}
    (hstep : (f.monitors m).step Monitored.handle action = some task) :
    Keeps w keyOf capacity { f with monitors := Function.update f.monitors m task } := by
  have hgrows : ∀ m', (f.monitors m').Grows (Function.update f.monitors m task m') := by
    intro m'
    by_cases hm : m' = m
    · subst hm
      rw [Function.update_self]
      exact .step hstep
    · rw [Function.update_of_ne hm]
      exact .refl _
  refine ⟨h.traced, fun m' ↦ ?_, fun m' ↦ ?_, fun m' s request hstage ↦ ?_, fun hfailed ↦ ?_⟩
  · by_cases hm : m' = m
    · subst hm
      obtain ⟨actions, hrun⟩ := h.monitors m'
      refine ⟨actions ++ [action], ?_⟩
      change _ = some (Function.update f.monitors m' task m')
      rw [Mailbox.run] at hrun ⊢
      rw [Function.update_self, List.foldlM_append, hrun]
      change (Mailbox.step _ _ _ >>= _) = _
      rw [hstep]
      rfl
    · change ∃ actions, _ = some (Function.update f.monitors m task m')
      rw [Function.update_of_ne hm]
      exact h.monitors m'
  · refine (h.fed m').trans (samples_mono ?_).sublist
    exact (hgrows m').handled.map _
  · obtain ⟨hsent, hbefore⟩ := h.awaited m' s request hstage
    obtain ⟨rest, hrest⟩ := (hgrows m').sent
    have hlt := (List.getElem?_eq_some_iff.mp hsent).1
    change (Function.update f.monitors m task m').sent[request]? = _ ∧ (_ : List S).Sublist
      (samples (((Function.update f.monitors m task m').sent.take request).map _))
    rw [← hrest, List.getElem?_append_left hlt, List.take_append_of_le_length (Nat.le_of_lt hlt)]
    exact ⟨hsent, hbefore⟩
  · refine (h.failed hfailed).imp_right ?_
    rintro ⟨m', hstopped⟩
    exact ⟨m', (hgrows m').stopped hstopped⟩

/-- What holds when only the pump has moved, and has delivered nothing. -/
theorem Keeps.pump (h : f.Keeps w keyOf capacity) (htraced : f'.Traced w)
    (hmonitors : f'.monitors = f.monitors) (hdeliveries : f'.pump.deliveries = f.pump.deliveries)
    (hstage : ∀ m s request, f'.stage ≠ .awaiting m s request)
    (hfailed : f'.pump.status = .failed →
      (∃ n, w.source n = .failed) ∨ ∃ m, (f.monitors m).stage = .stopped) :
    f'.Keeps w keyOf capacity where
  traced := htraced
  monitors m := by
    rw [hmonitors]
    exact h.monitors m
  fed m := by
    rw [hmonitors, hdeliveries]
    exact h.fed m
  awaited m s request hawaiting := absurd hawaiting (hstage m s request)
  failed hstatus := by
    rw [hmonitors]
    exact hfailed hstatus

/-- The pump fails when the monitor of a sample is gone. -/
theorem Keeps.gone (h : f.Keeps w keyOf capacity) {m : M} (hrouter : w.router (key s) = some m)
    (hat : f.AtSample w s) (hstopped : (f.monitors m).stage = .stopped) :
    (f.finish .failed).Keeps w keyOf capacity := by
  have hend := hat.turned 0 true
  rw [Setting.route, hrouter] at hend
  exact h.pump ⟨fun hs ↦ (by cases hs), hend⟩ rfl rfl (fun _ _ _ hs ↦ by cases hs)
    fun _ ↦ Or.inr ⟨m, hstopped⟩

/-- What the pump feeds is handled before it goes on. -/
theorem Keeps.send (h : f.Keeps w keyOf capacity) {m : M} (hstage : f.stage = .sending m s)
    (hsend : f.send m s = some f') : f'.Keeps w keyOf capacity := by
  obtain ⟨hrouter, hat⟩ := h.traced.sending hstage
  obtain ⟨task, hstep, hf'⟩ := Option.map_eq_some_iff.mp hsend
  have hgrown := h.grow hstep
  obtain ⟨actions, hrun⟩ := h.monitors m
  have hkeeps := Mailbox.keeps_run hrun
  cases Mailbox.moves_of_step hstep with
  | @sent _ rx _ hsend =>
      rw [(Channel.trySend_ok_open hsend).1, if_neg Bool.false_ne_true] at hf'
      subst hf'
      refine ⟨⟨hrouter, hat⟩, hgrown.monitors, hgrown.fed, ?_, hgrown.failed⟩
      rintro _ _ _ ⟨⟩
      change (Function.update f.monitors m _ m).sent[_]? = _ ∧ (_ : List S).Sublist
        (samples (((Function.update f.monitors m _ m).sent.take _).map _))
      rw [Function.update_self]
      dsimp only
      rw [List.getElem?_append_right (Nat.le_refl _), Nat.sub_self, List.take_left]
      refine ⟨rfl, (h.fed m).trans (samples_mono ?_).sublist⟩
      refine ⟨(f.monitors m).dropped.map Prod.snd ++ (f.monitors m).rx.queue.map Prod.snd, ?_⟩
      rw [hkeeps.fifo, List.map_append, List.map_append, List.map_map, List.append_assoc]
      rfl
  | refused _ hclosed =>
      rw [hclosed, if_pos rfl] at hf'
      subst hf'
      have hstopped := Mailbox.stopped_of_closed hrun hclosed
      refine hgrown.gone hrouter hat ?_
      change (Function.update f.monitors m _ m).stage = .stopped
      rw [Function.update_self]
      exact hstopped

theorem Keeps.hear (h : f.Keeps w keyOf capacity) {m : M} {request : Nat}
    (hstage : f.stage = .awaiting m s request) (hhear : f.hear m s request = some f') :
    f'.Keeps w keyOf capacity := by
  obtain ⟨hrouter, hat⟩ := h.traced.awaiting hstage
  obtain ⟨hsent, hbefore⟩ := h.awaited m s request hstage
  obtain ⟨⟨number, reply⟩, hfind, hf'⟩ := Option.map_eq_some_iff.mp hhear
  have hmem := List.mem_of_find?_eq_some hfind
  have hnumber := List.find?_some hfind
  obtain rfl : number = request := of_decide_eq_true hnumber
  obtain ⟨actions, hrun⟩ := h.monitors m
  have hkeeps := Mailbox.keeps_run hrun
  cases reply with
  | none =>
      cases hf'
      exact h.gone hrouter hat (hkeeps.stopped_of_lost hmem)
  | some rep =>
      cases hf'
      have hend := hat.turned 0 false
      rw [Setting.route, hrouter] at hend
      refine ⟨⟨hat.1, hend⟩, h.monitors, fun m' ↦ ?_, fun _ _ _ hs ↦ (by cases hs), h.failed⟩
      change (Setting.received (f.pump.deliveries ++ [(m, s)]) m').Sublist _
      rw [Setting.received, List.filter_append, List.map_append]
      by_cases hm : m = m'
      · subst hm
        rw [List.filter_cons_of_pos (by simp), List.filter_nil]
        obtain ⟨hlt, -⟩ := hkeeps.answer hmem
        have hhandled : (f.monitors m).sent.take (number + 1) <+:
            (f.monitors m).handled.map Mailbox.asked := by
          rw [hkeeps.fifo, List.append_assoc, List.take_append_of_le_length]
          · exact List.take_prefix _ _
          · rw [List.length_map]
            exact hlt
        have hall := samples_mono (hhandled.map Prod.snd)
        rw [List.take_add_one, hsent, List.map_append, samples_append, List.map_map] at hall
        exact (hbefore.append (List.Sublist.refl [s])).trans hall.sublist
      · rw [List.filter_cons_of_neg (by simpa using hm), List.filter_nil, List.map_nil,
          List.append_nil]
        exact h.fed m'

omit [FloatingPoint F] [DecidableEq M] in
/-- A sample that is due changes nothing but the pump. -/
theorem arrive_rest (f : Flow S M) (s : S) : (f.arrive w s).monitors = f.monitors ∧
    (f.arrive w s).pump.deliveries = f.pump.deliveries ∧
    (∀ m s' request, (f.arrive w s).stage ≠ .awaiting m s' request) ∧
    (f.arrive w s).pump.status = f.pump.status := by
  unfold arrive
  cases w.router (key s) with
  | none => exact ⟨rfl, rfl, fun _ _ _ h ↦ (by cases h), rfl⟩
  | some m => exact ⟨rfl, rfl, fun _ _ _ h ↦ (by cases h), rfl⟩

omit [DecidableEq M] in
/-- So does the source, and the pump fails only if the source has failed. -/
theorem pull_rest (hrunning : f.pump.status = .running) (elapsed : Nat) :
    (f.pull w elapsed).monitors = f.monitors ∧
    (f.pull w elapsed).pump.deliveries = f.pump.deliveries ∧
    (∀ m s' request, (f.pull w elapsed).stage ≠ .awaiting m s' request) ∧
    ((f.pull w elapsed).pump.status = .failed → ∃ n, w.source n = .failed) := by
  unfold pull
  dsimp only
  cases hsource : w.source f.pump.pulled with
  | failed => exact ⟨rfl, rfl, fun _ _ _ h ↦ (by cases h), fun _ ↦ ⟨_, hsource⟩⟩
  | exhausted => exact ⟨rfl, rfl, fun _ _ _ h ↦ (by cases h), fun h ↦ by cases h⟩
  | sample s =>
      dsimp only
      cases w.pace f.pump.baseTs ⟨false, elapsed, true, false⟩ s with
      | none => exact ⟨rfl, rfl, fun _ _ _ h ↦ (by cases h), fun h ↦ by cases h⟩
      | some paced =>
          obtain ⟨baseTs, early⟩ := paced
          cases early with
          | true =>
              exact ⟨rfl, rfl, fun _ _ _ h ↦ (by cases h), fun h ↦ by cases hrunning.symm.trans h⟩
          | false =>
              obtain ⟨hmonitors, hdeliveries, hstage, hstatus⟩ := arrive_rest (w := w)
                { f with pump := { f.pump with pulled := f.pump.pulled + 1, baseTs } } s
              refine ⟨hmonitors, hdeliveries, hstage, fun hfailed ↦ ?_⟩
              cases (hrunning.symm.trans hstatus.symm).trans hfailed

theorem Keeps.move (h : f.Keeps w keyOf capacity) {elapsed : Nat}
    (hmove : f.move w elapsed = some f') : f'.Keeps w keyOf capacity := by
  have htraced := h.traced
  unfold Traced at htraced
  unfold Flow.move at hmove
  cases hstage : f.stage with
  | selecting =>
      rw [hstage] at htraced hmove
      obtain ⟨hrunning, hturned⟩ := htraced
      cases hmove
      cases hcancelled : f.cancelled with
      | true =>
          rw [if_pos rfl]
          have hend := hturned.turn ⟨true, 0, false, false⟩ hrunning
            fun _ ↦ hcancelled
          rw [Setting.turn_of_cancelled hrunning] at hend
          exact h.pump ⟨fun hs ↦ (by cases hs), hend⟩ rfl rfl (fun _ _ _ hs ↦ by cases hs)
            fun hs ↦ by cases hs
      | false =>
          rw [if_neg Bool.false_ne_true]
          obtain ⟨hmonitors, hdeliveries, hnot, hfailed⟩ := pull_rest (w := w) hrunning elapsed
          exact h.pump (traced_pull hrunning hturned elapsed) hmonitors hdeliveries hnot
            fun hs ↦ Or.inl (hfailed hs)
  | sleeping s =>
      rw [hstage] at htraced hmove
      obtain ⟨hat, p, elapsed', hp, hturned, hturn⟩ := htraced
      cases hmove
      cases hcancelled : f.cancelled with
      | true =>
          rw [if_pos rfl]
          have hend := hturned.turn ⟨false, elapsed', true, false⟩ hp
            fun _ ↦ hcancelled
          rw [hturn] at hend
          exact h.pump ⟨fun hs ↦ (by cases hs), hend⟩ rfl rfl (fun _ _ _ hs ↦ by cases hs)
            fun hs ↦ by cases hs
      | false =>
          rw [if_neg Bool.false_ne_true]
          obtain ⟨hmonitors, hdeliveries, hnot, hstatus⟩ := arrive_rest (w := w) f s
          refine h.pump hat.arrive hmonitors hdeliveries hnot fun hs ↦ ?_
          cases (hat.1.symm.trans hstatus.symm).trans hs
  | sending m s =>
      rw [hstage] at hmove
      exact h.send hstage hmove
  | awaiting m s request =>
      rw [hstage] at hmove
      exact h.hear hstage hmove
  | ended =>
      rw [hstage] at hmove
      cases hmove

theorem Keeps.step (h : f.Keeps w keyOf capacity) {action : Action S M}
    (hstep : f.step w action = some f') : f'.Keeps w keyOf capacity := by
  cases action with
  | pump elapsed => exact h.move hstep
  | cancel =>
      cases hstep
      exact ⟨h.traced.cancel, h.monitors, h.fed, h.awaited, h.failed⟩
  | monitor m action =>
      simp only [Flow.step] at hstep
      split at hstep
      · obtain ⟨task, htask, rfl⟩ := Option.map_eq_some_iff.mp hstep
        exact h.grow htask
      · cases hstep

theorem keeps_run {actions : List (Action S M)}
    (h : run w actions (start keyOf capacity) = some f) : f.Keeps w keyOf capacity :=
  Fallible.foldlM_inv (P := fun f : Flow S M ↦ f.Keeps w keyOf capacity)
    (fun _ _ _ _ hf hstep ↦ hf.step hstep) keeps_start h

/-! ## A monitor that only the pump feeds -/

/-- The sample that is on its way to a monitor. -/
def onTheWay (f : Flow S M) (m : M) : List S :=
  match f.stage with
  | .awaiting m' s _ => if m' = m then [s] else []
  | _ => []

/-- Nobody but the pump sends samples to a monitor. -/
def Quiet (actions : List (Action S M)) (m : M) : Prop :=
  ∀ cmd, .monitor m (.request cmd) ∈ actions → samples [cmd] = []

/-- A monitor was sent what it was delivered, and what is on its way. -/
def Sole (f : Flow S M) (m : M) : Prop :=
  f.pump.status ≠ .failed → samples ((f.monitors m).sent.map Prod.snd) =
    Setting.received f.pump.deliveries m ++ f.onTheWay m

variable {m : M}

theorem onTheWay_of_ne (h : ∀ m' s request, f.stage ≠ .awaiting m' s request) :
    f.onTheWay m = [] := by
  unfold onTheWay
  split
  · next hstage => exact absurd hstage (h _ _ _)
  · rfl

/-- Only the pump moves, and delivers nothing. -/
theorem Sole.pump (h : f.Sole m) (hrunning : f.pump.status = .running)
    (hstage : ∀ m' s request, f.stage ≠ .awaiting m' s request)
    (hmonitors : f'.monitors = f.monitors) (hdeliveries : f'.pump.deliveries = f.pump.deliveries)
    (hstage' : ∀ m' s request, f'.stage ≠ .awaiting m' s request) : f'.Sole m := by
  intro _
  have hsent := h (by rw [hrunning]; rintro ⟨⟩)
  rw [onTheWay_of_ne hstage] at hsent
  rw [onTheWay_of_ne hstage', hmonitors, hdeliveries]
  exact hsent

/-- A monitor moves on, and is told no sample. -/
theorem Sole.grow (h : f.Sole m) {m' : M} {action : Mailbox.Action (MonitorCommand S)}
    {task : MonitorTask S} (hstep : (f.monitors m').step Monitored.handle action = some task)
    (hquiet : m' = m → ∀ cmd, action = .request cmd → samples [cmd] = []) :
    Sole { f with monitors := Function.update f.monitors m' task } m := by
  intro hstatus
  have hsent := h hstatus
  change samples ((Function.update f.monitors m' task m).sent.map Prod.snd) = _ ++ f.onTheWay m
  by_cases hm : m' = m
  · subst hm
    rw [Function.update_self, ← hsent]
    rcases Mailbox.sent_step hstep with hsame | ⟨cmd, haction, hmore⟩
    · rw [hsame]
    · rw [hmore, List.map_append, samples_append]
      change _ ++ samples [cmd] = _
      rw [hquiet rfl cmd haction, List.append_nil]
  · rw [Function.update_of_ne (Ne.symm hm)]
    exact hsent

theorem Sole.send (h : f.Sole m) (hrunning : f.pump.status = .running) {m' : M}
    (hstage : f.stage = .sending m' s) (hsend : f.send m' s = some f') : f'.Sole m := by
  obtain ⟨task, hstep, hf'⟩ := Option.map_eq_some_iff.mp hsend
  have hsent := h (by rw [hrunning]; rintro ⟨⟩)
  rw [onTheWay_of_ne (by rw [hstage]; rintro _ _ _ ⟨⟩), List.append_nil] at hsent
  cases Mailbox.moves_of_step hstep with
  | @sent _ rx _ hsend =>
      rw [(Channel.trySend_ok_open hsend).1, if_neg Bool.false_ne_true] at hf'
      subst hf'
      intro _
      change samples ((Function.update f.monitors m' _ m).sent.map Prod.snd) =
        _ ++ if m' = m then [s] else []
      by_cases hm : m' = m
      · subst hm
        rw [Function.update_self, if_pos rfl]
        dsimp only
        rw [List.map_append, samples_append, hsent]
        rfl
      · rw [Function.update_of_ne (Ne.symm hm), if_neg hm, List.append_nil]
        exact hsent
  | refused _ hclosed =>
      rw [hclosed, if_pos rfl] at hf'
      subst hf'
      intro hne
      exact absurd rfl hne

theorem Sole.hear (h : f.Sole m) (hrunning : f.pump.status = .running) {m' : M} {request : Nat}
    (hstage : f.stage = .awaiting m' s request) (hhear : f.hear m' s request = some f') :
    f'.Sole m := by
  obtain ⟨⟨number, reply⟩, -, hf'⟩ := Option.map_eq_some_iff.mp hhear
  have hsent := h (by rw [hrunning]; rintro ⟨⟩)
  rw [onTheWay, hstage] at hsent
  cases reply with
  | none =>
      cases hf'
      intro hne
      exact absurd rfl hne
  | some rep =>
      cases hf'
      intro _
      change samples ((f.monitors m).sent.map Prod.snd) =
        Setting.received (f.pump.deliveries ++ [(m', s)]) m ++ []
      rw [hsent, Setting.received, Setting.received, List.filter_append, List.map_append,
        List.append_nil]
      refine congrArg _ ?_
      by_cases hm : m' = m
      · subst hm
        rw [List.filter_cons_of_pos (by simp)]
        exact if_pos rfl
      · rw [List.filter_cons_of_neg (by simpa using hm)]
        exact if_neg hm

theorem Sole.move (h : f.Sole m) (hkeeps : f.Keeps w keyOf capacity) {elapsed : Nat}
    (hmove : f.move w elapsed = some f') : f'.Sole m := by
  have htraced := hkeeps.traced
  unfold Traced at htraced
  unfold Flow.move at hmove
  cases hstage : f.stage with
  | selecting =>
      rw [hstage] at htraced hmove
      cases hmove
      have hnot : ∀ m' s request, f.stage ≠ .awaiting m' s request := by
        rw [hstage]
        rintro _ _ _ ⟨⟩
      split
      · exact h.pump htraced.1 hnot rfl rfl fun _ _ _ hs ↦ by cases hs
      · obtain ⟨hmonitors, hdeliveries, hnot', -⟩ := pull_rest (w := w) htraced.1 elapsed
        exact h.pump htraced.1 hnot hmonitors hdeliveries hnot'
  | sleeping s =>
      rw [hstage] at htraced hmove
      cases hmove
      have hnot : ∀ m' s request, f.stage ≠ .awaiting m' s request := by
        rw [hstage]
        rintro _ _ _ ⟨⟩
      split
      · exact h.pump htraced.1.1 hnot rfl rfl fun _ _ _ hs ↦ by cases hs
      · obtain ⟨hmonitors, hdeliveries, hnot', -⟩ := arrive_rest (w := w) f s
        exact h.pump htraced.1.1 hnot hmonitors hdeliveries hnot'
  | sending m' s =>
      rw [hstage] at htraced hmove
      exact h.send htraced.2.1 hstage hmove
  | awaiting m' s request =>
      rw [hstage] at htraced hmove
      exact h.hear htraced.2.1 hstage hmove
  | ended =>
      rw [hstage] at hmove
      cases hmove

theorem sole_run {actions : List (Action S M)}
    (h : run w actions (start keyOf capacity) = some f) (hquiet : Quiet actions m) : f.Sole m := by
  refine (Fallible.foldlM_inv (P := fun f : Flow S M ↦ f.Keeps w keyOf capacity ∧ f.Sole m)
    (fun action haction f f' hf hstep ↦ ⟨hf.1.step hstep, ?_⟩) ⟨keeps_start, fun _ ↦ rfl⟩ h).2
  cases action with
  | pump elapsed => exact hf.2.move hf.1 hstep
  | cancel =>
      cases hstep
      exact hf.2
  | monitor m' action =>
      simp only [Flow.step] at hstep
      split at hstep
      · obtain ⟨task, htask, rfl⟩ := Option.map_eq_some_iff.mp hstep
        refine hf.2.grow htask ?_
        rintro rfl cmd rfl
        exact hquiet cmd haction
      · cases hstep

/-- Once the pump has returned, such a monitor has what it was delivered and no more. -/
theorem Keeps.has_received (h : f.Keeps w keyOf capacity) (hsole : f.Sole m)
    (hreturned : f.pump.status = .returned) :
    (f.monitors m).state.Has (keyOf m) (capacity m) (Setting.received f.pump.deliveries m) := by
  obtain ⟨_, hrun⟩ := h.monitors m
  have hserves := Mailbox.serves_run hrun
  have hway : f.onTheWay m = [] := by
    refine onTheWay_of_ne fun m' s request hstage ↦ ?_
    have htraced := h.traced
    rw [Traced, hstage] at htraced
    cases hreturned.symm.trans htraced.2.1
  have hsent := hsole (by rw [hreturned]; rintro ⟨⟩)
  rw [hway, List.append_nil] at hsent
  have hhandled := samples_mono (hserves.inOrder.2.map Prod.snd)
  rw [hsent, List.map_map] at hhandled
  have heq : samples ((f.monitors m).handled.map fun h ↦ h.2.op) =
      Setting.received f.pump.deliveries m := hhandled.sublist.antisymm (h.fed m)
  rw [← heq, hserves.inOrder.1]
  exact has_after (keyOf m) (capacity m) _

/-! ## What arrives -/

/-- What a pump and its monitors owe each other and their users. -/
structure Delivers (w : Setting S M F) (keyOf : M → Key S) (capacity : M → Nat) (f : Flow S M) :
    Prop where
  /-- Everybody who uses a monitor sees what was sent to it. -/
  shows : ∀ m, Shows (keyOf m) (capacity m) (f.monitors m)
  /-- What was delivered to a monitor is on the bus, in the order of the stream. -/
  published : ∀ m, (updates (keyOf m) (Setting.received f.pump.deliveries m)).Sublist
    (f.monitors m).state.published
  /-- A pump that has ended has taken the turns of the pump that a `Setting` describes. -/
  turned : f.pump.status ≠ .running → w.Turned f.cancelled f.pump
  /-- A pump that has returned has delivered a front of the stream, all of it if it was not
  cancelled. -/
  returned : f.pump.status = .returned →
    ∃ front, w.DeliversFront f.pump.stats f.pump.deliveries front ∧
      f.pump.stats.fed + f.pump.stats.dropped = front.length ∧
      (f.cancelled = false → w.source front.length = .exhausted)
  /-- It fails only if the source does, or a monitor has stopped. -/
  failed : f.pump.status = .failed →
    (∃ n, w.source n = .failed) ∨ ∃ m, (f.monitors m).stage = .stopped

theorem Keeps.turned (h : f.Keeps w keyOf capacity) (hended : f.pump.status ≠ .running) :
    w.Turned f.cancelled f.pump := by
  have htraced := h.traced
  unfold Traced at htraced
  cases hstage : f.stage with
  | selecting =>
      rw [hstage] at htraced
      exact htraced.2
  | sleeping s =>
      rw [hstage] at htraced
      exact absurd htraced.1.1 hended
  | sending m s =>
      rw [hstage] at htraced
      exact absurd htraced.2.1 hended
  | awaiting m s request =>
      rw [hstage] at htraced
      exact absurd htraced.2.1 hended
  | ended =>
      rw [hstage] at htraced
      exact htraced.2

/-- **What the pump feeds is ingested.**  And a monitor that nobody else feeds has, once the pump
has returned, seen just what it was delivered. -/
theorem flow_ingests_what_it_feeds {actions : List (Action S M)}
    (h : run w actions (start keyOf capacity) = some f) :
    f.Delivers w keyOf capacity ∧
      ∀ m, Quiet actions m → f.pump.status = .returned →
        (f.monitors m).state.Has (keyOf m) (capacity m)
          (Setting.received f.pump.deliveries m) := by
  have hkeeps := keeps_run h
  refine ⟨?_, fun m hquiet ↦ hkeeps.has_received (sole_run h hquiet)⟩
  refine ⟨fun m ↦ ?_, fun m ↦ ?_, hkeeps.turned, fun hreturned ↦ ?_, hkeeps.failed⟩
  · obtain ⟨_, hrun⟩ := hkeeps.monitors m
    exact shows_of_serves (Mailbox.serves_run hrun)
  · obtain ⟨_, hrun⟩ := hkeeps.monitors m
    rw [(shows_of_serves (Mailbox.serves_run hrun)).published]
    exact ((hkeeps.fed m).filter _).map _
  · have hended : f.pump.status ≠ .running := by
      rw [hreturned]
      rintro ⟨⟩
    obtain ⟨moments, hrun, hcancelled⟩ := hkeeps.turned hended
    have hsound := Setting.sound_run (w := w.during moments) moments.length
    rw [← hrun] at hsound
    obtain ⟨front, hfront, hlength, hwhole, -⟩ := Setting.delivers_of_sound hsound hreturned
    refine ⟨front, ⟨hfront.isFront, hfront.fed_eq, hfront.received_eq⟩, hlength, fun hnot ↦ ?_⟩
    refine hwhole fun i _ ↦ ?_
    change (moments.getD i _).cancelled = false ∧ (moments.getD i _).cancelledAsleep = false
    rcases Nat.lt_or_ge i moments.length with hlt | hge
    · rw [List.getD_eq_getElem _ _ hlt]
      have hcalm := mt (hcancelled moments[i] (List.getElem_mem hlt))
        (by rw [hnot]; exact Bool.false_ne_true)
      rw [not_or, Bool.not_eq_true, Bool.not_eq_true] at hcalm
      exact hcalm
    · rw [List.getD_eq_default _ _ hge]
      exact ⟨rfl, rfl⟩

/-! ### A sample between two others -/

section Example

attribute [local instance] Decision.exactNumbers

/-- A pump at full speed; between its two samples somebody else tells one, and then the source is
exhausted. -/
def toldBetween : List (Action (NumericSample ℚ) Unit) :=
  [.pump 0, .pump 0, .monitor () .poll, .monitor () .poll, .monitor () .poll, .pump 0,
    .monitor () .cloneHandle, .monitor () (.request (.sample ⟨"load", 7, 1⟩)), .pump 0, .pump 0,
    .monitor () .poll, .monitor () .poll, .monitor () .poll, .monitor () .poll, .monitor () .poll,
    .monitor () .poll, .pump 0, .pump 0]

/-- The pump returns, and the bus has what it has fed. -/
theorem fed_samples_are_published :
    ∃ f : Flow (NumericSample ℚ) Unit,
      run (Setting.twoSamples .asap) toldBetween (start (fun _ ↦ "load") fun _ ↦ 4) = some f ∧
        f.pump.status = .returned ∧
        List.Sublist [⟨"load", ⟨1, 0⟩⟩, ⟨"load", ⟨2, 1⟩⟩] (f.monitors ()).state.published := by
  have hrun : (run (Setting.twoSamples .asap) toldBetween (start (fun _ ↦ "load") fun _ ↦ 4)).map
      (fun f : Flow (NumericSample ℚ) Unit ↦ (f.pump.status, f.pump.deliveries)) =
        some (.returned, [((), ⟨"load", 1, 0⟩), ((), ⟨"load", 2, 1⟩)]) := rfl
  obtain ⟨f, hf, hfields⟩ := Option.map_eq_some_iff.mp hrun
  obtain ⟨hstatus, hdeliveries⟩ := Prod.mk.inj hfields
  have hpublished := (flow_ingests_what_it_feeds hf).1.published ()
  rw [hdeliveries] at hpublished
  exact ⟨f, hf, hstatus, hpublished⟩

end Example

end Flow

end Koalisi.Ingest
