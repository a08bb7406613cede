import Koalisi.Core.Drain
import Koalisi.Lib.Fanout

/-!
# A task that forwards what it drains

A courier calls `next` of a `CancelDrain` again and again, and hands each item it gets to its sinks,
one after the other; a sink may keep it waiting.  It ends when a call returns nothing.

It draws no item while it has one in hand, and what it draws is what the drain yields.  So every
sink is offered the items in the order they were sent; a sink behind another has never seen an item
the other has not; and once the cancel is observed the sinks are offered as many more items as were
buffered then, and not one that was sent later (`Carries`).
-/

namespace Koalisi.Core

open Koalisi.Lib Koalisi.Lib.Fallible

variable {α S O : Type}

structure Courier (α S O : Type) where
  session : Session α
  /-- The item in hand, and the sink that is next to get it. -/
  hand : Option (α × Nat)
  ended : Bool
  sinks : List (Sink α S O)

namespace Courier

/-- What can happen. -/
inductive Action (α O : Type) where
  /-- Somebody puts an item on the tap, which drops it if it is full or closed. -/
  | send (item : α)
  /-- The last sender is dropped. -/
  | close
  | cancel
  /-- Others use a sink. -/
  | outside (sink : Nat) (op : O)
  /-- The task takes a step. -/
  | poll

/-- A courier that has just been started. -/
def start (capacity : Nat) (states : List S) : Courier α S O where
  session := .start capacity
  hand := none
  ended := false
  sinks := states.map Sink.start

variable (kind : SinkKind α S O) (ready : α → S → Bool)

/-- The loop is left, and the receiver is dropped. -/
def finish (c : Courier α S O) : Courier α S O :=
  { c with
    ended := true
    session := { c.session with
      drain := { c.session.drain with rx := c.session.drain.rx.close } } }

/-- A step of a call of `next`, and what comes of it if the call is over. -/
def draw (c : Courier α S O) : Option (Courier α S O) :=
  (c.session.drain.next c.session.cancelled c.session.sendersGone c.session.stage).map
    fun (drain, stage, result) ↦
      let c := { c with session := { c.session with
        drain, stage, returned := c.session.returned ++ result.toList } }
      match result with
      | none => c
      | some (some item) => { c with hand := some (item, 0) }
      | some none => c.finish

/-- A step of the task; none if it waits, or has ended. -/
def poll (c : Courier α S O) : Option (Courier α S O) :=
  match c.hand with
  | some (item, next) =>
      match c.sinks[next]? with
      | some sink =>
          if ready item sink.state then
            some { c with
              sinks := c.sinks.modify next (·.apply kind (.offer item))
              hand := some (item, next + 1) }
          else none
      | none => some { c with hand := none }
  | none =>
      if c.ended then none
      else if c.session.stage = .idle then
        (c.session.step .call).map fun session ↦ { c with session }
      else c.draw

/-- One action, if it is possible. -/
def step (c : Courier α S O) : Action α O → Option (Courier α S O)
  | .send item => match c.session.step (.send item) with
    | some session => some { c with session }
    | none => some c
  | .close => (c.session.step .close).map fun session ↦ { c with session }
  | .cancel => (c.session.step .cancel).map fun session ↦ { c with session }
  | .outside i op => some { c with sinks := c.sinks.modify i (·.apply kind (.outside op)) }
  | .poll => c.poll kind ready

/-- Actions one after the other. -/
def run (actions : List (Action α O)) (c : Courier α S O) : Option (Courier α S O) :=
  actions.foldlM (step kind ready) c

/-! ## What a courier carries -/

/-- What is counted is buffered, and nothing is taken before it is counted. -/
structure Counted (s : Session α) : Prop where
  bounded : ∀ n, s.drain.remaining = some n → n ≤ s.drain.rx.queue.length
  taking : s.stage = .taking → s.drain.remaining ≠ none
  observed : s.drain.remaining ≠ none → s.cancelled = true

/-- A drain has nothing more to yield. -/
def Exhausted (s : Session α) : Prop :=
  match s.drain.remaining with
  | some n => n = 0
  | none => s.sendersGone = true ∧ s.drain.rx.queue = []

section Session

variable {s s' : Session α}

/-- Nothing has been counted. -/
theorem counted_of_none (hnone : s.drain.remaining = none) (hstage : s.stage ≠ .taking) :
    Counted s where
  bounded n hn := by cases hnone.symm.trans hn
  taking htaking := absurd htaking hstage
  observed hsome := absurd hnone hsome

theorem Counted.step (h : Counted s) (hs : s.Ordered) {action : Session.Action α}
    (hstep : s.step action = some s') : Counted s' := by
  obtain ⟨⟨rx, remaining⟩, stage, cancelled, sendersGone, sent, returned⟩ := s
  cases action with
  | send item =>
      obtain ⟨rx', hqueue, rfl⟩ := Session.step_send hstep
      refine ⟨fun n hn ↦ ?_, h.taking, h.observed⟩
      have hle : n ≤ rx.queue.length := h.bounded n hn
      change n ≤ rx'.queue.length
      rw [hqueue, List.length_append]
      exact Nat.le_add_right_of_le hle
  | close =>
      cases hstep
      exact ⟨h.bounded, h.taking, h.observed⟩
  | cancel =>
      cases hstep
      exact ⟨h.bounded, h.taking, fun _ ↦ rfl⟩
  | call =>
      obtain ⟨-, rfl⟩ := Session.step_call hstep
      refine ⟨h.bounded, fun henter ↦ ?_, h.observed⟩
      cases remaining with
      | none => cases henter
      | some n => exact Option.some_ne_none n
  | poll =>
      obtain ⟨⟨drain, stage', result⟩, hnext, rfl⟩ := Option.map_eq_some_iff.mp hstep
      cases stage with
      | idle => cases hnext
      | selecting =>
          cases hnext
          refine ⟨h.bounded, fun htaking ↦ ?_, h.observed⟩
          cases cancelled <;> cases htaking
      | receiving =>
          obtain ⟨-, -, hremaining⟩ := CancelDrain.tryRecv_eq ⟨rx, remaining⟩
          have hnone : remaining = none := hs
          simp only [CancelDrain.next] at hnext
          generalize CancelDrain.tryRecv ⟨rx, remaining⟩ = received at hnext hremaining
          obtain ⟨item, rest⟩ := received
          have hrest : rest.remaining = none := hremaining.trans hnone
          cases item with
          | some item =>
              cases hnext
              exact counted_of_none hrest Stage.noConfusion
          | none =>
              simp only at hnext
              split at hnext <;> cases hnext
              · exact counted_of_none hrest Stage.noConfusion
              · exact counted_of_none hrest Stage.noConfusion
      | counting =>
          cases hnext
          exact ⟨fun n hn ↦ Nat.le_of_eq (Option.some.inj hn).symm, fun _ ↦ Option.some_ne_none _,
            fun _ ↦ hs.1⟩
      | taking =>
          cases hnext
          refine ⟨fun n hn ↦ ?_, Stage.noConfusion, fun _ ↦ h.observed (h.taking rfl)⟩
          cases remaining with
          | none => exact absurd rfl (h.taking rfl)
          | some m =>
              cases m with
              | zero => exact h.bounded n hn
              | succ m =>
                  have hm : m + 1 ≤ rx.queue.length := h.bounded _ rfl
                  obtain ⟨-, hqueue, hremaining⟩ := CancelDrain.tryRecv_eq ⟨rx, some m⟩
                  have hmn : m = n := Option.some.inj (hremaining.symm.trans hn)
                  subst hmn
                  change m ≤ (CancelDrain.tryRecv ⟨rx, some m⟩).2.rx.queue.length
                  rw [hqueue, List.length_tail]
                  exact Nat.le_sub_one_of_lt hm

/-- A call returns nothing when the drain is exhausted. -/
theorem Counted.exhausted (h : Counted s) (hs : s.Ordered) {drain : CancelDrain α} {stage : Stage}
    (hnext : s.drain.next s.cancelled s.sendersGone s.stage = some (drain, stage, some none)) :
    Exhausted { s with drain, stage, returned := s.returned ++ [none] } := by
  obtain ⟨⟨rx, remaining⟩, stage', cancelled, sendersGone, sent, returned⟩ := s
  cases stage' with
  | idle => cases hnext
  | selecting => cases hnext
  | receiving =>
      obtain ⟨hitem, hqueue, hremaining⟩ := CancelDrain.tryRecv_eq ⟨rx, remaining⟩
      have hnone : remaining = none := hs
      simp only [CancelDrain.next] at hnext
      generalize CancelDrain.tryRecv ⟨rx, remaining⟩ = received at hnext hitem hqueue hremaining
      obtain ⟨item, rest⟩ := received
      cases item with
      | some item => cases hnext
      | none =>
          have hnil : rx.queue = [] := List.head?_eq_none_iff.mp hitem.symm
          have hrest : rest.remaining = none := hremaining.trans hnone
          have hempty : rest.rx.queue = [] := by
            rw [hqueue, hnil]
            rfl
          simp only at hnext
          split at hnext
          · next hgone =>
              cases hnext
              rw [Exhausted, hrest]
              exact ⟨hgone, hempty⟩
          · cases hnext
  | counting => cases hnext
  | taking =>
      simp only [CancelDrain.next, Option.some_inj, Prod.mk.injEq] at hnext
      obtain ⟨hdrain, -, hresult⟩ := hnext
      cases remaining with
      | none => exact absurd rfl (h.taking rfl)
      | some m =>
          cases m with
          | zero =>
              subst hdrain
              exact rfl
          | succ m =>
              have hm : m + 1 ≤ rx.queue.length := h.bounded _ rfl
              obtain ⟨hitem, -, -⟩ := CancelDrain.tryRecv_eq ⟨rx, some m⟩
              have hnil : rx.queue = [] := List.head?_eq_none_iff.mp (hitem.symm.trans hresult)
              rw [hnil] at hm
              exact absurd hm (Nat.not_succ_le_zero m)

/-- Once the items are counted, one that is yielded is one less to come. -/
theorem Counted.ahead (h : Counted s) (hs : s.Ordered) {n : Nat}
    (hn : s.drain.remaining = some n) {action : Session.Action α}
    (hstep : s.step action = some s') : ∃ n', s'.drain.remaining = some n' ∧
      s'.yielded.length + n' = s.yielded.length + n := by
  obtain ⟨⟨rx, remaining⟩, stage, cancelled, sendersGone, sent, returned⟩ := s
  cases action with
  | send item =>
      obtain ⟨rx', -, rfl⟩ := Session.step_send hstep
      exact ⟨n, hn, rfl⟩
  | close =>
      cases hstep
      exact ⟨n, hn, rfl⟩
  | cancel =>
      cases hstep
      exact ⟨n, hn, rfl⟩
  | call =>
      obtain ⟨-, rfl⟩ := Session.step_call hstep
      exact ⟨n, hn, rfl⟩
  | poll =>
      obtain ⟨⟨drain, stage', result⟩, hnext, rfl⟩ := Option.map_eq_some_iff.mp hstep
      cases stage with
      | idle => cases hnext
      | selecting => cases hn.symm.trans hs
      | receiving => cases hn.symm.trans hs
      | counting => cases hn.symm.trans hs.2
      | taking =>
          have hremaining : remaining = some n := hn
          subst hremaining
          cases hnext
          cases n with
          | zero =>
              refine ⟨0, rfl, ?_⟩
              change (returned ++ [none]).reduceOption.length + 0 = returned.reduceOption.length + 0
              rw [List.reduceOption_append]
              exact congrArg List.length (List.append_nil _)
          | succ m =>
              have hm : m + 1 ≤ rx.queue.length := h.bounded _ rfl
              obtain ⟨hitem, -, hrest⟩ := CancelDrain.tryRecv_eq ⟨rx, some m⟩
              refine ⟨m, hrest, ?_⟩
              change (returned ++ [(CancelDrain.tryRecv ⟨rx, some m⟩).1]).reduceOption.length + m =
                returned.reduceOption.length + (m + 1)
              obtain ⟨first, queue, hqueue⟩ : ∃ first queue, rx.queue = first :: queue :=
                List.exists_cons_of_length_pos (Nat.lt_of_lt_of_le (Nat.succ_pos m) hm)
              rw [hitem, hqueue, List.reduceOption_append, List.length_append]
              change _ + 1 + m = _
              omega

end Session

/-- What a courier that has been started with some sinks never loses. -/
structure Keeps (states : List S) (c : Courier α S O) : Prop where
  lossless : c.session.Lossless
  ordered : c.session.Ordered
  counted : Counted c.session
  serving : Serving kind states c.sinks c.session.yielded c.hand
  /-- The loop is left when the counted items are used up, or nobody can send any more. -/
  ended : c.ended = true → c.hand = none ∧ Exhausted c.session

variable {kind ready} {states : List S} {c c' : Courier α S O}

theorem keeps_start (capacity : Nat) (states : List S) :
    (start capacity states : Courier α S O).Keeps kind states where
  lossless := rfl
  ordered := trivial
  counted := counted_of_none rfl fun h ↦ nomatch h
  serving := .start kind states
  ended h := by cases h

/-- What a step of a call does to the session, and what comes of it. -/
theorem draw_cases (h : c.draw = some c') : ∃ session,
    c.session.step .poll = some session ∧
      ((session.yielded = c.session.yielded ∧ c' = { c with session }) ∨
        (∃ item, session.yielded = c.session.yielded ++ [item] ∧
          c' = { c with session, hand := some (item, 0) }) ∨
        (session.yielded = c.session.yielded ∧ c' = finish { c with session } ∧
          (Counted c.session → c.session.Ordered → Exhausted session))) := by
  obtain ⟨⟨drain, stage, result⟩, hnext, rfl⟩ := Option.map_eq_some_iff.mp h
  have hstep : c.session.step .poll = some { c.session with
      drain, stage, returned := c.session.returned ++ result.toList } :=
    Option.map_eq_some_iff.mpr ⟨_, hnext, rfl⟩
  refine ⟨_, hstep, ?_⟩
  have hyielded : Session.yielded { c.session with
      drain, stage, returned := c.session.returned ++ result.toList } =
        c.session.yielded ++ result.toList.reduceOption := List.reduceOption_append _ _
  rw [hyielded]
  cases result with
  | none => exact Or.inl ⟨List.append_nil _, rfl⟩
  | some returned =>
      cases returned with
      | none =>
          exact Or.inr (Or.inr ⟨List.append_nil _, rfl, fun hcounted hordered ↦
            hcounted.exhausted hordered hnext⟩)
      | some item => exact Or.inr (Or.inl ⟨item, rfl, rfl⟩)

/-- Dropping the receiver leaves what is buffered, and what was counted. -/
theorem Keeps.finish (h : c.Keeps kind states) (hhand : c.hand = none)
    (hexhausted : Exhausted c.session) : c.finish.Keeps kind states where
  lossless := h.lossless
  ordered := h.ordered
  counted := ⟨h.counted.bounded, h.counted.taking, h.counted.observed⟩
  serving := h.serving
  ended _ := ⟨hhand, hexhausted⟩

theorem Keeps.draw (h : c.Keeps kind states) (hhand : c.hand = none) (hended : c.ended = false)
    (hdraw : c.draw = some c') : c'.Keeps kind states := by
  have hserving := h.serving
  rw [hhand] at hserving
  have hnot : ∀ {P : Prop}, c.ended = true → P := fun ht ↦
    absurd (hended.symm.trans ht) Bool.false_ne_true
  obtain ⟨session, hstep, ⟨hyielded, rfl⟩ | ⟨item, hyielded, rfl⟩ | ⟨hyielded, rfl, hexhausted⟩⟩ :=
    draw_cases hdraw
  · refine ⟨h.lossless.step hstep, h.ordered.step hstep, h.counted.step h.ordered hstep, ?_, hnot⟩
    rw [hhand, hyielded]
    exact hserving
  · refine ⟨h.lossless.step hstep, h.ordered.step hstep, h.counted.step h.ordered hstep, ?_, hnot⟩
    rw [hyielded]
    exact hserving.take item
  · refine Keeps.finish ⟨h.lossless.step hstep, h.ordered.step hstep,
      h.counted.step h.ordered hstep, ?_, hnot⟩ hhand (hexhausted h.counted h.ordered)
    rw [hhand, hyielded]
    exact hserving

theorem Keeps.poll (h : c.Keeps kind states) (hpoll : c.poll kind ready = some c') :
    c'.Keeps kind states := by
  unfold Courier.poll at hpoll
  split at hpoll
  · next item next hhand =>
      have hserving := h.serving
      rw [hhand] at hserving
      have hended : c.ended ≠ true := fun hended ↦ by
        cases hhand.symm.trans (h.ended hended).1
      split at hpoll
      · next sink hsink =>
          split at hpoll
          · cases hpoll
            exact ⟨h.lossless, h.ordered, h.counted,
              hserving.deliver (List.getElem?_eq_some_iff.mp hsink).1,
              fun ht ↦ absurd ht hended⟩
          · cases hpoll
      · next hnone =>
          cases hpoll
          exact ⟨h.lossless, h.ordered, h.counted,
            hserving.done (List.getElem?_eq_none_iff.mp hnone), fun ht ↦ absurd ht hended⟩
  · next hhand =>
      split at hpoll
      · cases hpoll
      · next hended =>
          rw [Bool.not_eq_true] at hended
          split at hpoll
          · obtain ⟨session, hcall, rfl⟩ := Option.map_eq_some_iff.mp hpoll
            obtain ⟨-, rfl⟩ := Session.step_call hcall
            exact ⟨h.lossless.step hcall, h.ordered.step hcall, h.counted.step h.ordered hcall,
              h.serving, fun ht ↦ absurd (hended.symm.trans ht) Bool.false_ne_true⟩
          · exact h.draw hhand hended hpoll

/-- Senders and the token leave an exhausted drain exhausted, and what was yielded. -/
theorem exhausted_send {s s' : Session α} (h : Exhausted s) {item : α}
    (hstep : s.step (.send item) = some s') : Exhausted s' := by
  obtain ⟨rx, -, rfl⟩ := Session.step_send hstep
  rw [Exhausted] at h ⊢
  cases hremaining : s.drain.remaining with
  | some n =>
      simp only [hremaining] at h ⊢
      exact h
  | none =>
      -- nobody is left to send
      simp only [hremaining] at h
      simp only [Session.step, h.1, if_true] at hstep
      cases hstep

theorem Keeps.step (h : c.Keeps kind states) {action : Action α O}
    (hstep : c.step kind ready action = some c') : c'.Keeps kind states := by
  cases action with
  | send item =>
      simp only [Courier.step] at hstep
      split at hstep
      · next session hsend =>
          cases hstep
          refine ⟨h.lossless.step hsend, h.ordered.step hsend, h.counted.step h.ordered hsend, ?_,
            fun ht ↦ ⟨(h.ended ht).1, exhausted_send (h.ended ht).2 hsend⟩⟩
          obtain ⟨rx, -, rfl⟩ := Session.step_send hsend
          exact h.serving
      · cases hstep
        exact h
  | close =>
      cases hstep
      have hclose : c.session.step .close = some { c.session with sendersGone := true } := rfl
      refine ⟨h.lossless, h.ordered, h.counted.step h.ordered hclose, h.serving,
        fun ht ↦ ⟨(h.ended ht).1, ?_⟩⟩
      have hexhausted := (h.ended ht).2
      rw [Exhausted] at hexhausted ⊢
      cases hremaining : c.session.drain.remaining with
      | some n =>
          simp only [hremaining] at hexhausted ⊢
          exact hexhausted
      | none =>
          simp only [hremaining] at hexhausted ⊢
          exact ⟨trivial, hexhausted.2⟩
  | cancel =>
      cases hstep
      have hcancel : c.session.step .cancel = some { c.session with cancelled := true } := rfl
      exact ⟨h.lossless, h.ordered.step hcancel, h.counted.step h.ordered hcancel, h.serving,
        h.ended⟩
  | outside i op =>
      cases hstep
      exact ⟨h.lossless, h.ordered, h.counted, h.serving.outside i op, h.ended⟩
  | poll => exact h.poll hstep

/-- **The run lemma.** -/
theorem keeps_run {capacity : Nat} {actions : List (Action α O)}
    (h : run kind ready actions (start capacity states) = some c) : c.Keeps kind states :=
  foldlM_inv (P := fun c ↦ c.Keeps kind states) (fun _ _ _ _ hc hstep ↦ hc.step hstep)
    (keeps_start capacity states) h

/-- What a sink comes to when it is only offered an item that it is ready for. -/
theorem sinks_run {P : Sink α S O → Prop}
    (hoffer : ∀ item sink, P sink → ready item sink.state = true →
      P (sink.apply kind (.offer item)))
    (houtside : ∀ op sink, P sink → P (sink.apply kind (.outside op)))
    {actions : List (Action α O)} (hstart : ∀ sink ∈ c.sinks, P sink)
    (h : run kind ready actions c = some c') : ∀ sink ∈ c'.sinks, P sink := by
  have hmodify : ∀ (sinks : List (Sink α S O)) (i : Nat) (op : SinkOp α O),
      (∀ sink ∈ sinks, P sink) → (∀ sink, sinks[i]? = some sink → P (sink.apply kind op)) →
      ∀ sink ∈ sinks.modify i (·.apply kind op), P sink := by
    intro sinks i op hall hop sink hsink
    obtain ⟨j, hj⟩ := List.getElem?_of_mem hsink
    obtain ⟨before, hbefore, rfl⟩ := Serving.getElem?_modify_apply hj
    split
    · next hij => exact hop before (hij ▸ hbefore)
    · exact hall before (List.mem_of_getElem? hbefore)
  refine foldlM_inv (P := fun d : Courier α S O ↦ ∀ sink ∈ d.sinks, P sink)
    (fun action _ d d' hd hstep ↦ ?_) hstart h
  cases action with
  | send item =>
      simp only [Courier.step] at hstep
      split at hstep <;> cases hstep <;> exact hd
  | close =>
      cases hstep
      exact hd
  | cancel =>
      cases hstep
      exact hd
  | outside i op =>
      cases hstep
      exact hmodify d.sinks i (.outside op) hd fun sink hsink ↦
        houtside op sink (hd sink (List.mem_of_getElem? hsink))
  | poll =>
      simp only [Courier.step] at hstep
      unfold Courier.poll at hstep
      split at hstep
      · next item next hhand =>
          split at hstep
          · next sink hsink =>
              split at hstep
              · next hready =>
                  cases hstep
                  refine hmodify d.sinks next (.offer item) hd fun sink' hsink' ↦ ?_
                  obtain rfl := Option.some.inj (hsink.symm.trans hsink')
                  exact hoffer item sink (hd sink (List.mem_of_getElem? hsink)) hready
              · cases hstep
          · cases hstep
            exact hd
      · split at hstep
        · cases hstep
        · split at hstep
          · obtain ⟨session, -, rfl⟩ := Option.map_eq_some_iff.mp hstep
            exact hd
          · obtain ⟨session, -, ⟨-, rfl⟩ | ⟨item, -, rfl⟩ | ⟨-, rfl, -⟩⟩ := draw_cases hstep
            · exact hd
            · exact hd
            · exact hd

/-! ## What a run does -/

/-- What a courier has done. -/
structure Carries (kind : SinkKind α S O) (ready : α → S → Bool) (states : List S)
    (c : Courier α S O) : Prop where
  /-- There are the sinks it was started with; each is what its own history makes of it. -/
  alone : c.sinks.length = states.length ∧ ∀ (i : Nat) (sink : Sink α S O),
    c.sinks[i]? = some sink →
      ∃ state, states[i]? = some state ∧ sink = Sink.replay kind state sink.history
  /-- Each was offered what was drained, in order and none twice, but for the item in hand. -/
  inOrder : c.session.yielded <+: c.session.sent ∧ ∀ sink ∈ c.sinks,
    sink.offers <+: c.session.yielded ∧ c.session.yielded.length ≤ sink.offers.length + 1
  /-- A sink has not seen what the sinks before it have not. -/
  behind : ∀ (i j : Nat) (sink sink' : Sink α S O), i ≤ j → c.sinks[i]? = some sink →
    c.sinks[j]? = some sink' → sink'.offers <+: sink.offers
  /-- At the end each was offered everything that was drained: all that was sent, if the token was
  not cancelled. -/
  everything : c.ended = true → ∀ sink ∈ c.sinks, sink.offers = c.session.yielded ∧
    (c.session.cancelled = false → sink.offers = c.session.sent)
  /-- Once the cancel was observed, so many items are still drained as are counted, no more, and at
  the end no less. -/
  prompt : ∀ n, c.session.drain.remaining = some n → ∀ later c',
    run kind ready later c = some c' →
      c'.session.yielded.length ≤ c.session.yielded.length + n ∧
        (c'.ended = true → c'.session.yielded.length = c.session.yielded.length + n)

/-- A step of the courier counts one item off for one that is drained. -/
theorem Keeps.ahead (h : c.Keeps kind states) {n : Nat}
    (hn : c.session.drain.remaining = some n) {action : Action α O}
    (hstep : c.step kind ready action = some c') : ∃ n',
      c'.session.drain.remaining = some n' ∧
        c'.session.yielded.length + n' = c.session.yielded.length + n := by
  cases action with
  | send item =>
      simp only [Courier.step] at hstep
      split at hstep
      · next session hsend =>
          cases hstep
          exact h.counted.ahead h.ordered hn hsend
      · cases hstep
        exact ⟨n, hn, rfl⟩
  | close =>
      cases hstep
      exact ⟨n, hn, rfl⟩
  | cancel =>
      cases hstep
      exact ⟨n, hn, rfl⟩
  | outside i op =>
      cases hstep
      exact ⟨n, hn, rfl⟩
  | poll =>
      simp only [Courier.step] at hstep
      unfold Courier.poll at hstep
      split at hstep
      · split at hstep
        · split at hstep
          · cases hstep
            exact ⟨n, hn, rfl⟩
          · cases hstep
        · cases hstep
          exact ⟨n, hn, rfl⟩
      · split at hstep
        · cases hstep
        · split at hstep
          · obtain ⟨session, hcall, rfl⟩ := Option.map_eq_some_iff.mp hstep
            exact h.counted.ahead h.ordered hn hcall
          · obtain ⟨session, hpoll, ⟨-, rfl⟩ | ⟨item, -, rfl⟩ | ⟨-, rfl, -⟩⟩ := draw_cases hstep
            · exact h.counted.ahead h.ordered hn hpoll
            · exact h.counted.ahead h.ordered hn hpoll
            · obtain ⟨n', hn', hsum⟩ := h.counted.ahead h.ordered hn hpoll
              exact ⟨n', hn', hsum⟩

theorem Keeps.ahead_run (h : c.Keeps kind states) {n : Nat}
    (hn : c.session.drain.remaining = some n) {later : List (Action α O)}
    (hrun : run kind ready later c = some c') : c'.Keeps kind states ∧ ∃ n',
      c'.session.drain.remaining = some n' ∧
        c'.session.yielded.length + n' = c.session.yielded.length + n := by
  refine foldlM_inv (P := fun d : Courier α S O ↦ d.Keeps kind states ∧ ∃ n',
    d.session.drain.remaining = some n' ∧
      d.session.yielded.length + n' = c.session.yielded.length + n)
    (fun action _ d d' hd hstep ↦ ?_) ⟨h, n, hn, rfl⟩ hrun
  obtain ⟨hkeeps, m, hm, hsum⟩ := hd
  obtain ⟨m', hm', hsum'⟩ := hkeeps.ahead hm hstep
  exact ⟨hkeeps.step hstep, m', hm', hsum'.trans hsum⟩

/-- **What a run does.** -/
theorem carries_run {capacity : Nat} {actions : List (Action α O)}
    (h : run kind ready actions (start capacity states) = some c) :
    c.Carries kind ready states := by
  have hc := keeps_run h
  have hlossless : c.session.sent = c.session.yielded ++ c.session.drain.rx.queue := hc.lossless
  constructor
  case alone => exact ⟨hc.serving.length, hc.serving.replayed⟩
  case inOrder =>
    refine ⟨?_, fun sink hsink ↦ hc.serving.offers_prefix hsink⟩
    rw [hlossless]
    exact List.prefix_append _ _
  case behind =>
    intro i j sink sink' hij hi hj
    rw [hc.serving.offered i sink hi, hc.serving.offered j sink' hj]
    rcases c.hand with _ | ⟨item, next⟩
    · exact List.prefix_refl _
    · simp only
      by_cases hnext : j < next
      · rewrite [if_pos hnext, if_pos (Nat.lt_of_le_of_lt hij hnext)]
        exact List.prefix_refl _
      · rw [if_neg hnext]
        split
        · exact List.dropLast_prefix _
        · exact List.prefix_refl _
  case everything =>
    intro hended sink hsink
    obtain ⟨hhand, hexhausted⟩ := hc.ended hended
    have hserving := hc.serving
    rw [hhand] at hserving
    have hoffers := hserving.offers_eq hsink
    refine ⟨hoffers, fun hcancelled ↦ ?_⟩
    rw [Exhausted] at hexhausted
    cases hremaining : c.session.drain.remaining with
    | some n =>
        have hobserved := hc.counted.observed (by rw [hremaining]; exact Option.some_ne_none n)
        exact absurd (hcancelled.symm.trans hobserved) Bool.false_ne_true
    | none =>
        simp only [hremaining] at hexhausted
        rw [hoffers, hlossless, hexhausted.2, List.append_nil]
  case prompt =>
    intro n hn later c' hlater
    obtain ⟨hkeeps, n', hn', hsum⟩ := hc.ahead_run hn hlater
    refine ⟨by omega, fun hended ↦ ?_⟩
    have hexhausted := (hkeeps.ended hended).2
    rw [Exhausted, hn'] at hexhausted
    simp only at hexhausted
    omega

end Courier

end Koalisi.Core
