import Koalisi.Subsystems.Service

/-!
# What becomes of a request

A request that was sent is queued, in the task's hand or answered, and it is in one of
these places only: a move of the service shifts the border between them along one list
(`Moves.places`).  Where the task stands decides whether the channel is closed, the flag
set and a panic on record (`Task.Stands`), and what became of a request decides whether
the task ever worked on it (`Fits`).  `Sound` is all of this together, and it holds
throughout a run.

Three things are about what comes after a state of a run: a cancelled task works on none
of the queued requests but the one it may be about to take (`unhandled_of_cancelled`), a
panic is the last thing it works on (`handled_of_faulted`), and every step of the task
brings an answer closer (`answered_of_polls`).
-/

namespace Koalisi.Subsystems

open Koalisi.Lib Koalisi.Lib.Fallible Koalisi.Topology

variable {W Cmd Rep E O : Type}

/-- What the channel, the flag and the records are where the task stands. -/
def Task.Stands (closed panicked : Bool) (faulted : Option RequestId)
    (handled : List RequestId) : Task Cmd Rep E → Prop
  | .select => closed = false ∧ panicked = false ∧ faulted = none
  | .recv => closed = false ∧ panicked = false ∧ faulted = none
  | .handling reply _ => closed = false ∧ panicked = false ∧ faulted = none ∧ reply ∉ handled
  | .replying reply _ => closed = false ∧ panicked = false ∧ faulted = none ∧ reply ∈ handled
  | .caught reply _ => closed = false ∧ panicked = false ∧ faulted = some reply
  | .flagged reply _ => closed = false ∧ panicked = true ∧ faulted = some reply
  | .returning => closed = false ∧ panicked = true ∧ faulted.isSome
  | .refusing => closed = true ∧ panicked = false ∧ faulted = none
  | .dropping => closed = true ∧ panicked = true ∧ faulted.isSome
  | .stopped => closed = true ∧ panicked = faulted.isSome

/-- How many steps of the task the answer to the request in hand is away at most. -/
def Task.handSteps : Task Cmd Rep E → Nat
  | .handling _ _ => 3
  | .caught _ _ => 2
  | _ => 1

/-- How many steps of the task the answer to a queued request is away at most, with this many
requests before it. -/
def Task.queueSteps (ahead : Nat) : Task Cmd Rep E → Nat
  | .handling _ _ => 5 * ahead + 7
  | .replying _ _ => 5 * ahead + 6
  | .caught _ _ => 5 * ahead + 6
  | .flagged _ _ => 5 * ahead + 5
  | .select => 5 * ahead + 5
  | .recv => 5 * ahead + 4
  | .returning => 5 * ahead + 4
  | .refusing => ahead + 1
  | .dropping => ahead + 1
  | .stopped => 0

namespace Service

/-! ## Places -/

/-- Requests answered, in hand and queued, in this order. -/
def places (s : Service W Cmd Rep E) : List RequestId := s.answered ++ (s.inHand ++ s.queued)

section Places

variable {s s' : Service W Cmd Rep E} {reply : RequestId}

theorem mem_places :
    reply ∈ s.places ↔ reply ∈ s.answered ∨ reply ∈ s.inHand ∨ reply ∈ s.queued := by
  rw [places, List.mem_append, List.mem_append]

theorem inHand_of_handling {cmd : Cmd} (h : s.task = .handling reply cmd) :
    s.inHand = [reply] := by
  rw [inHand, h]

theorem inHand_of_replying {output : Except (TemporalError E) Rep}
    (h : s.task = .replying reply output) : s.inHand = [reply] := by
  rw [inHand, h]

theorem inHand_of_caught {message : String} (h : s.task = .caught reply message) :
    s.inHand = [reply] := by
  rw [inHand, h]

theorem inHand_of_flagged {message : String} (h : s.task = .flagged reply message) :
    s.inHand = [reply] := by
  rw [inHand, h]

variable {work : O → Cmd → W → Except String (Except (TemporalError E) Rep) × W}
variable {a : Action W Cmd O}

/-- Requests stay where they are if the answers, the hand and the queue do. -/
theorem places_congr (ha : s'.answered = s.answered) (hh : s'.inHand = s.inHand)
    (hq : s'.queued = s.queued) : s'.places = s.places := by
  rw [places, places, ha, hh, hq]

/-- Answering the request in hand moves it over to the answered ones. -/
theorem places_of_hand (hh : s.inHand = [reply]) (ha : s'.answered = s.answered ++ [reply])
    (hh' : s'.inHand = []) (hq : s'.queued = s.queued) : s'.places = s.places := by
  rw [places, places, ha, hh, hh', hq, List.append_assoc]
  rfl

/-- Answering the request at the head of the queue moves it past the hand. -/
theorem places_of_head (hh : s.inHand = []) (hq : s.queued = reply :: s'.queued)
    (ha : s'.answered = s.answered ++ [reply]) (hh' : s'.inHand = []) :
    s'.places = s.places := by
  rw [places, places, ha, hh, hh', hq, List.append_assoc]
  rfl

/-- A move leaves every request where it is or moves it on, or brings in the next one. -/
theorem Moves.places (h : Moves work s a s') :
    (s'.places = s.places ∧ s'.next = s.next ∧ s'.accepted = s.accepted) ∨
      (s'.places.Perm (s.next :: s.places) ∧ s'.next = s.next + 1 ∧
        s'.accepted ⊆ s.accepted ++ [s.next]) := by
  cases h with
  | @accepted cmd rx _ hq =>
      refine Or.inr ⟨?_, rfl, List.Subset.refl _⟩
      have hp : Service.places { s with
          rx := rx, next := s.next + 1, accepted := s.accepted ++ [s.next] } =
          s.places ++ [s.next] := by
        change s.answered ++ (s.inHand ++ rx.queue.map Prod.fst) = _
        rw [hq, List.map_append, ← List.append_assoc, ← List.append_assoc, Service.places,
          ← List.append_assoc]
        rfl
      rw [hp]
      exact List.perm_append_singleton s.next s.places
  | @gone cmd _ =>
      refine Or.inr ⟨?_, rfl, List.subset_append_left _ _⟩
      change ((s.answer s.next (.error .gone)).answered ++ (s.inHand ++ s.queued)).Perm _
      rw [answered_answer, List.append_assoc]
      exact List.perm_middle
  | take ht hq =>
      refine Or.inl ⟨?_, rfl, rfl⟩
      rw [Service.places, Service.places, inHand, inHand, ht, queued_cons hq]
      rfl
  | replied ht =>
      exact Or.inl ⟨places_of_hand (inHand_of_replying ht) answered_answer rfl rfl, rfl, rfl⟩
  | report ht =>
      exact Or.inl ⟨places_of_hand (inHand_of_flagged ht) answered_answer rfl rfl, rfl, rfl⟩
  | refuse ht hq =>
      have hn : s.inHand = [] := by rw [inHand, ht]
      exact Or.inl ⟨places_of_head hn (queued_cons hq) answered_answer hn, rfl, rfl⟩
  | drop ht hq =>
      have hn : s.inHand = [] := by rw [inHand, ht]
      exact Or.inl ⟨places_of_head hn (queued_cons hq) answered_answer hn, rfl, rfl⟩
  | seeCancel ht | passToken ht | abandoned ht | wait ht | worked ht | panics ht | flag ht
  | closes ht => exact Or.inl ⟨places_congr rfl (by simp only [inHand, ht]) rfl, rfl, rfl⟩
  | stop ht =>
      refine Or.inl ⟨places_congr rfl ?_ rfl, rfl, rfl⟩
      rcases ht with ht | ht <;> simp only [inHand, ht]
  | _ => exact Or.inl ⟨rfl, rfl, rfl⟩

end Places

/-! ## What holds throughout a run -/

/-- What the records say about a request with this outcome. -/
def Fits (s : Service W Cmd Rep E) (reply : RequestId) : Except (ServiceError E) Rep → Prop
  | .error .gone => reply ∉ s.accepted ∧ reply ∉ s.handled
  | .error .cancelled =>
      reply ∈ s.accepted ∧ reply ∉ s.handled ∧ s.rx.closed = true ∧ s.faulted = none
  | .error .replyDropped => reply ∈ s.accepted ∧ reply ∉ s.handled ∧ s.panicked = true
  | .error (.panicked _) =>
      reply ∈ s.accepted ∧ reply ∈ s.handled ∧ s.faulted = some reply ∧ s.panicked = true
  | .error (.topology _) => reply ∈ s.accepted ∧ reply ∈ s.handled ∧ s.faulted ≠ some reply
  | .ok _ => reply ∈ s.accepted ∧ reply ∈ s.handled ∧ s.faulted ≠ some reply

/-- What holds throughout a run. -/
structure Sound (s : Service W Cmd Rep E) : Prop where
  capacity : s.rx.capacity = commandCapacity
  /-- No request is in two places. -/
  nodup : s.places.Nodup
  numbered : ∀ reply ∈ s.places, reply < s.next
  /-- No accepted request is lost. -/
  accounted : ∀ reply ∈ s.accepted, reply ∈ s.places
  worked : ∀ reply ∈ s.handled, reply ∈ s.accepted
  held : ∀ reply ∈ s.inHand, reply ∈ s.accepted
  waiting : ∀ reply ∈ s.queued, reply ∈ s.accepted ∧ reply ∉ s.handled
  stands : s.task.Stands s.rx.closed s.panicked s.faulted s.handled
  blamed : ∀ reply, s.faulted = some reply → reply ∈ s.handled
  fits : ∀ p ∈ s.outcomes, s.Fits p.1 p.2
  /-- A task that has stopped leaves nothing behind. -/
  idle : s.task = .stopped → s.rx.queue = []

section Invariant

variable {work : O → Cmd → W → Except String (Except (TemporalError E) Rep) × W}
variable {s s' : Service W Cmd Rep E} {a : Action W Cmd O} {reply : RequestId}

theorem sound_spawn (world : W) : (spawn world : Service W Cmd Rep E).Sound where
  capacity := rfl
  nodup := List.nodup_nil
  numbered _ h := nomatch h
  accounted _ h := nomatch h
  worked _ h := nomatch h
  held _ h := nomatch h
  waiting _ h := nomatch h
  stands := ⟨rfl, rfl, rfl⟩
  blamed _ h := nomatch h
  fits _ h := nomatch h
  idle h := nomatch h

theorem taking_of_recv (h : s.task = .recv) : s.taking = s.queued.head? := by
  rw [taking, h]

theorem mem_queued_of_taking (h : s.taking = some reply) : reply ∈ s.queued := by
  unfold taking at h
  split at h
  · exact List.mem_of_head? h
  · cases h

namespace Moves

theorem accepted_subset (h : Moves work s a s') : s.accepted ⊆ s'.accepted := by
  cases h with
  | accepted => exact List.subset_append_left _ _
  | _ => exact List.Subset.refl _

/-- The task works on the request in its hand, and on nothing else. -/
theorem handled (h : Moves work s a s') :
    s'.handled = s.handled ∨
      ∃ reply cmd, s.task = .handling reply cmd ∧ s'.handled = s.handled ++ [reply] := by
  cases h with
  | worked ht => exact Or.inr ⟨_, _, ht, rfl⟩
  | panics ht => exact Or.inr ⟨_, _, ht, rfl⟩
  | _ => exact Or.inl rfl

/-- A request that is not in hand is worked on after a move only if it was before. -/
theorem mem_handled (h : Moves work s a s') (hn : reply ∉ s.inHand) :
    reply ∈ s'.handled ↔ reply ∈ s.handled := by
  rcases h.handled with hh | ⟨r, cmd, ht, hh⟩
  · rw [hh]
  · rw [hh, List.mem_append]
    refine or_iff_left fun hr ↦ hn ?_
    rw [inHand_of_handling ht]
    exact hr

/-- The task takes the request it was about to take. -/
theorem inHand (h : Moves work s a s') : ∀ r ∈ s'.inHand, r ∈ s.inHand ∨ s.taking = some r := by
  intro r hr
  cases h with
  | take ht hq =>
      rw [taking_of_recv ht, queued_cons hq, List.mem_singleton.mp hr]
      exact Or.inr rfl
  | worked ht =>
      rw [inHand_of_handling ht]
      exact Or.inl hr
  | panics ht =>
      rw [inHand_of_handling ht]
      exact Or.inl hr
  | flag ht =>
      rw [inHand_of_caught ht]
      exact Or.inl hr
  | seeCancel | passToken | abandoned | wait | replied | report | closes | stop =>
      exact nomatch hr
  | _ => exact Or.inl hr

/-- A task is about to take a request once it has found the token uncancelled. -/
theorem taking (h : Moves work s a s') (hr : s'.taking = some reply) :
    s.taking = some reply ∨ s.cancelled = false ∨ reply = s.next := by
  cases h with
  | @accepted cmd rx _ hq =>
      cases ht : s.task with
      | recv =>
          have hq' : rx.queue.map Prod.fst = s.queued ++ [s.next] := by
            rw [hq, List.map_append]
            rfl
          rw [taking_of_recv] at hr
          · rw [taking_of_recv ht]
            change (rx.queue.map Prod.fst).head? = some reply at hr
            rw [hq'] at hr
            cases hs : s.queued with
            | nil =>
                rw [hs] at hr
                exact Or.inr (Or.inr (Option.some.inj hr).symm)
            | cons r q =>
                rw [hs] at hr
                exact Or.inl hr
          · exact ht
      | _ => simp [Service.taking, ht] at hr
  | passToken _ hc => exact Or.inr (Or.inl hc)
  | refuse ht => simp [Service.taking, Service.answer, ht] at hr
  | drop ht => simp [Service.taking, Service.answer, ht] at hr
  | seeCancel | take | abandoned | wait | worked | panics | replied | flag | report | closes
  | stop => exact absurd hr (Option.some_ne_none reply).symm
  | _ => exact Or.inl hr

/-- A cancel is not taken back. -/
theorem cancelled (h : Moves work s a s') (hc : s.cancelled = true) : s'.cancelled = true := by
  cases h with
  | cancel => rfl
  | _ => exact hc

/-- Only a request that is sent enters the queue. -/
theorem queued (h : Moves work s a s') :
    ∀ r ∈ s'.queued, r ∈ s.queued ∨ (r = s.next ∧ r ∈ s'.accepted) := by
  intro r hr
  cases h with
  | accepted _ hq =>
      change r ∈ List.map Prod.fst _ at hr
      rw [hq, List.map_append] at hr
      rcases List.mem_append.mp hr with hr | hr
      · exact Or.inl hr
      · have hr := List.mem_singleton.mp hr
        exact Or.inr ⟨hr, List.mem_append_right _ (List.mem_singleton.mpr hr)⟩
  | take _ hq =>
      rw [queued_cons hq]
      exact Or.inl (List.mem_cons_of_mem _ hr)
  | refuse _ hq =>
      rw [queued_cons hq]
      exact Or.inl (List.mem_cons_of_mem _ hr)
  | drop _ hq =>
      rw [queued_cons hq]
      exact Or.inl (List.mem_cons_of_mem _ hr)
  | _ => exact Or.inl hr

/-- The world changes when the task works on a request, or from outside. -/
theorem world (h : Moves work s a s') :
    s'.world = s.world ∨ (∃ w, a = .outside w) ∨
      ∃ o reply cmd, s.task = .handling reply cmd ∧ reply ∈ s'.handled ∧
        s'.world = (work o cmd s.world).2 := by
  cases h with
  | outside => exact Or.inr (Or.inl ⟨_, rfl⟩)
  | worked ht hw | panics ht hw =>
      refine Or.inr (Or.inr ⟨_, _, _, ht, ?_, (congrArg Prod.snd hw).symm⟩)
      exact List.mem_append_right _ (List.mem_singleton_self _)
  | _ => exact Or.inl rfl

end Moves

namespace Sound

theorem next_not_mem_places (hs : s.Sound) : s.next ∉ s.places := fun h ↦
  Nat.lt_irrefl _ (hs.numbered _ h)

theorem next_not_mem_accepted (hs : s.Sound) : s.next ∉ s.accepted := fun h ↦
  hs.next_not_mem_places (hs.accounted _ h)

theorem next_not_mem_handled (hs : s.Sound) : s.next ∉ s.handled := fun h ↦
  hs.next_not_mem_accepted (hs.worked _ h)

theorem not_mem_answered (hs : s.Sound) (h : reply ∈ s.inHand ∨ reply ∈ s.queued) :
    reply ∉ s.answered := fun ha ↦
  List.disjoint_of_nodup_append hs.nodup ha (List.mem_append.mpr h)

theorem not_mem_inHand (hs : s.Sound) (h : reply ∈ s.queued) : reply ∉ s.inHand := fun hi ↦
  List.disjoint_of_nodup_append (List.nodup_append.mp hs.nodup).2.1 hi h

theorem capacity_move (hs : s.Sound) (h : Moves work s a s') :
    s'.rx.capacity = commandCapacity := by
  cases h with
  | accepted _ _ _ _ hc => exact hc.trans hs.capacity
  | take _ _ _ hc => exact hc.trans hs.capacity
  | refuse _ _ _ hc => exact hc.trans hs.capacity
  | drop _ _ _ hc => exact hc.trans hs.capacity
  | _ => exact hs.capacity

theorem nodup_move (hs : s.Sound) (h : Moves work s a s') : s'.places.Nodup := by
  rcases h.places with ⟨hp, -, -⟩ | ⟨hp, -, -⟩
  · rw [hp]
    exact hs.nodup
  · exact hp.nodup_iff.mpr (List.nodup_cons.mpr ⟨hs.next_not_mem_places, hs.nodup⟩)

theorem numbered_move (hs : s.Sound) (h : Moves work s a s') : ∀ r ∈ s'.places, r < s'.next := by
  intro r hr
  rcases h.places with ⟨hp, hn, -⟩ | ⟨hp, hn, -⟩
  · rw [hn]
    exact hs.numbered r (hp ▸ hr)
  · rw [hn]
    rcases List.mem_cons.mp (hp.mem_iff.mp hr) with rfl | hr
    · exact Nat.lt_succ_self _
    · exact Nat.lt_succ_of_lt (hs.numbered r hr)

theorem accounted_move (hs : s.Sound) (h : Moves work s a s') :
    ∀ r ∈ s'.accepted, r ∈ s'.places := by
  intro r hr
  rcases h.places with ⟨hp, -, ha⟩ | ⟨hp, -, ha⟩
  · rw [hp]
    exact hs.accounted r (ha ▸ hr)
  · refine hp.mem_iff.mpr (List.mem_cons.mpr ?_)
    rcases List.mem_append.mp (ha hr) with hr | hr
    · exact Or.inr (hs.accounted r hr)
    · exact Or.inl (List.mem_singleton.mp hr)

theorem held_move (hs : s.Sound) (h : Moves work s a s') : ∀ r ∈ s'.inHand, r ∈ s'.accepted := by
  intro r hr
  rcases h.inHand r hr with hr | hr
  · exact h.accepted_subset (hs.held r hr)
  · exact h.accepted_subset (hs.waiting r (mem_queued_of_taking hr)).1

theorem worked_move (hs : s.Sound) (h : Moves work s a s') :
    ∀ r ∈ s'.handled, r ∈ s'.accepted := by
  intro r hr
  rcases h.handled with hh | ⟨reply, cmd, ht, hh⟩
  · exact h.accepted_subset (hs.worked r (hh ▸ hr))
  · rcases List.mem_append.mp (hh ▸ hr) with hr | hr
    · exact h.accepted_subset (hs.worked r hr)
    · exact h.accepted_subset (hs.held r (inHand_of_handling ht ▸ hr))

theorem waiting_move (hs : s.Sound) (h : Moves work s a s') :
    ∀ r ∈ s'.queued, r ∈ s'.accepted ∧ r ∉ s'.handled := by
  intro r hr
  rcases h.queued r hr with hr | ⟨rfl, ha⟩
  · obtain ⟨ha, hh⟩ := hs.waiting r hr
    exact ⟨h.accepted_subset ha, fun hh' ↦
      hh ((h.mem_handled (hs.not_mem_inHand hr)).mp hh')⟩
  · refine ⟨ha, fun hh ↦ hs.next_not_mem_handled ?_⟩
    refine (h.mem_handled fun hi ↦ ?_).mp hh
    exact hs.next_not_mem_accepted (hs.held _ hi)

theorem stands_move (hs : s.Sound) (h : Moves work s a s') :
    s'.task.Stands s'.rx.closed s'.panicked s'.faulted s'.handled := by
  have hst := hs.stands
  cases h with
  | accepted hc _ hc' =>
      rw [hc] at hst
      change s.task.Stands _ _ _ _
      rw [hc']
      exact hst
  | seeCancel ht =>
      rw [ht] at hst
      exact ⟨rfl, hst.2⟩
  | passToken ht =>
      rw [ht] at hst
      exact hst
  | take ht hq hc =>
      rw [ht] at hst
      refine ⟨hc.trans hst.1, hst.2.1, hst.2.2, (hs.waiting _ ?_).2⟩
      rw [queued_cons hq]
      exact List.mem_cons_self
  | abandoned ht =>
      rw [ht] at hst
      obtain ⟨-, hp, hf⟩ := hst
      refine ⟨rfl, ?_⟩
      change s.panicked = s.faulted.isSome
      rw [hp, hf]
      rfl
  | wait ht =>
      rw [ht] at hst
      exact hst
  | worked ht =>
      rw [ht] at hst
      obtain ⟨hc, hp, hf, -⟩ := hst
      exact ⟨hc, hp, hf, List.mem_append_right _ (List.mem_singleton_self _)⟩
  | panics ht =>
      rw [ht] at hst
      exact ⟨hst.1, hst.2.1, rfl⟩
  | replied ht =>
      rw [ht] at hst
      exact ⟨hst.1, hst.2.1, hst.2.2.1⟩
  | flag ht =>
      rw [ht] at hst
      exact ⟨hst.1, rfl, hst.2.2⟩
  | report ht =>
      rw [ht] at hst
      obtain ⟨hc, hp, hf⟩ := hst
      refine ⟨hc, hp, ?_⟩
      change s.faulted.isSome = true
      rw [hf]
      rfl
  | closes ht =>
      rw [ht] at hst
      exact ⟨rfl, hst.2⟩
  | refuse ht _ hc =>
      rw [ht] at hst
      change s.task.Stands _ _ _ _
      rw [ht]
      exact ⟨hc.trans hst.1, hst.2⟩
  | drop ht _ hc =>
      rw [ht] at hst
      change s.task.Stands _ _ _ _
      rw [ht]
      exact ⟨hc.trans hst.1, hst.2⟩
  | stop ht =>
      rcases ht with ht | ht
      · rw [ht] at hst
        obtain ⟨hc, hp, hf⟩ := hst
        refine ⟨hc, ?_⟩
        change s.panicked = s.faulted.isSome
        rw [hp, hf]
        rfl
      · rw [ht] at hst
        obtain ⟨hc, hp, hf⟩ := hst
        exact ⟨hc, hp.trans hf.symm⟩
  | _ => exact hst

theorem blamed_move (hs : s.Sound) (h : Moves work s a s') :
    ∀ r, s'.faulted = some r → r ∈ s'.handled := by
  intro r hr
  cases h with
  | worked => exact List.mem_append_left _ (hs.blamed r hr)
  | panics => exact List.mem_append_right _ (List.mem_singleton.mpr (Option.some.inj hr).symm)
  | _ => exact hs.blamed r hr

theorem idle_move (hs : s.Sound) (h : Moves work s a s') :
    s'.task = .stopped → s'.rx.queue = [] := by
  intro ht'
  cases h with
  | accepted hc =>
      have hst := hs.stands
      rw [show s.task = .stopped from ht', hc] at hst
      exact nomatch hst.1
  | abandoned _ hq => exact hq
  | stop _ hq => exact hq
  | refuse ht => exact nomatch ht.symm.trans ht'
  | drop ht => exact nomatch ht.symm.trans ht'
  | seeCancel | passToken | take | wait | worked | panics | replied | flag | report | closes =>
      exact nomatch ht'
  | _ => exact hs.idle ht'

end Sound

section Fits

variable {outcome : Except (ServiceError E) Rep}

/-- What the records say about an outcome is kept while they agree on the request. -/
theorem Fits.congr (ha : reply ∈ s'.accepted ↔ reply ∈ s.accepted)
    (hh : reply ∈ s'.handled ↔ reply ∈ s.handled)
    (hf : s'.faulted = some reply ↔ s.faulted = some reply)
    (hp : s.panicked = true → s'.panicked = true)
    (hc : s.rx.closed = true → s.faulted = none → s'.rx.closed = true ∧ s'.faulted = none)
    (h : s.Fits reply outcome) : s'.Fits reply outcome := by
  cases outcome with
  | ok output => exact ⟨ha.mpr h.1, hh.mpr h.2.1, fun h' ↦ h.2.2 (hf.mp h')⟩
  | error error =>
      cases error with
      | gone => exact ⟨fun h' ↦ h.1 (ha.mp h'), fun h' ↦ h.2 (hh.mp h')⟩
      | replyDropped => exact ⟨ha.mpr h.1, fun h' ↦ h.2.1 (hh.mp h'), hp h.2.2⟩
      | cancelled => exact ⟨ha.mpr h.1, fun h' ↦ h.2.1 (hh.mp h'), hc h.2.2.1 h.2.2.2⟩
      | panicked message => exact ⟨ha.mpr h.1, hh.mpr h.2.1, hf.mpr h.2.2.1, hp h.2.2.2⟩
      | topology error => exact ⟨ha.mpr h.1, hh.mpr h.2.1, fun h' ↦ h.2.2 (hf.mp h')⟩

/-- A move adds no request but the next one to the accepted ones. -/
theorem Moves.mem_accepted (h : Moves work s a s') (hn : reply ≠ s.next) :
    reply ∈ s'.accepted ↔ reply ∈ s.accepted := by
  cases h with
  | accepted =>
      refine List.mem_append.trans (or_iff_left fun hr ↦ ?_)
      exact hn (List.mem_singleton.mp hr)
  | _ => exact Iff.rfl

/-- The request in hand is the only one a panic can be put down to. -/
theorem Moves.faulted (h : Moves work s a s') :
    s'.faulted = s.faulted ∨
      ∃ reply cmd, s.task = .handling reply cmd ∧ s'.faulted = some reply := by
  cases h with
  | panics ht => exact Or.inr ⟨_, _, ht, rfl⟩
  | _ => exact Or.inl rfl

/-- The flag is never taken back. -/
theorem Moves.panicked (h : Moves work s a s') (hp : s.panicked = true) : s'.panicked = true := by
  cases h with
  | flag => rfl
  | _ => exact hp

/-- Neither is the close of the channel. -/
theorem Moves.closed (h : Moves work s a s') (hc : s.rx.closed = true) :
    s'.rx.closed = true := by
  cases h with
  | accepted ho => exact nomatch ho.symm.trans hc
  | take _ _ hc' => exact hc'.trans hc
  | refuse _ _ hc' => exact hc'.trans hc
  | drop _ _ hc' => exact hc'.trans hc
  | seeCancel => rfl
  | abandoned => rfl
  | closes => rfl
  | _ => exact hc

namespace Sound

theorem fits_kept (hs : s.Sound) (h : Moves work s a s') (hr : reply ∈ s.answered)
    (hf : s.Fits reply outcome) : s'.Fits reply outcome := by
  have hn : reply ∉ s.inHand := fun hi ↦ hs.not_mem_answered (Or.inl hi) hr
  refine hf.congr (h.mem_accepted ?_) (h.mem_handled hn) ?_ h.panicked ?_
  · rintro rfl
    exact hs.next_not_mem_places (mem_places.mpr (Or.inl hr))
  · rcases h.faulted with he | ⟨r, cmd, ht, he⟩
    · rw [he]
    · have hst := hs.stands
      rw [ht] at hst
      rw [he, hst.2.2.1]
      refine iff_of_false (fun hr' ↦ hn ?_) fun hr' ↦ nomatch hr'
      rw [inHand_of_handling ht, Option.some.inj hr']
      exact List.mem_singleton_self _
  · intro hc he
    refine ⟨h.closed hc, ?_⟩
    rcases h.faulted with he' | ⟨r, cmd, ht, -⟩
    · rw [he', he]
    · have hst := hs.stands
      rw [ht, hc] at hst
      exact nomatch hst.1

theorem fits_move (hs : s.Sound) (h : Moves work s a s') :
    ∀ p ∈ s'.outcomes, s'.Fits p.1 p.2 := by
  have hold : ∀ p ∈ s.outcomes, s'.Fits p.1 p.2 := fun p hp ↦
    hs.fits_kept h (List.mem_map_of_mem hp) (hs.fits p hp)
  have hst := hs.stands
  -- a move adds one outcome or none
  have hnew : ∀ reply outcome, s'.Fits reply outcome →
      ∀ p ∈ s.outcomes ++ [(reply, outcome)], s'.Fits p.1 p.2 := by
    intro reply outcome hf p hp
    rcases List.mem_append.mp hp with hp | hp
    · exact hold p hp
    · rw [List.mem_singleton.mp hp]
      exact hf
  cases h with
  | gone => exact hnew _ _ ⟨hs.next_not_mem_accepted, hs.next_not_mem_handled⟩
  | @replied _ reply output ht =>
      rw [ht] at hst
      obtain ⟨-, -, hf, hh⟩ := hst
      have hf' : s.faulted ≠ some reply := by
        rw [hf]
        exact fun h ↦ nomatch h
      cases output with
      | ok output => exact hnew _ _ ⟨hs.worked _ hh, hh, hf'⟩
      | error error => exact hnew _ _ ⟨hs.worked _ hh, hh, hf'⟩
  | report ht =>
      rw [ht] at hst
      have hh := hs.blamed _ hst.2.2
      exact hnew _ _ ⟨hs.worked _ hh, hh, hst.2.2, hst.2.1⟩
  | refuse ht hq hc =>
      rw [ht] at hst
      obtain ⟨ha, hh⟩ := hs.waiting _ (queued_cons hq ▸ List.mem_cons_self)
      exact hnew _ _ ⟨ha, hh, hc.trans hst.1, hst.2.2⟩
  | drop ht hq hc =>
      rw [ht] at hst
      obtain ⟨ha, hh⟩ := hs.waiting _ (queued_cons hq ▸ List.mem_cons_self)
      exact hnew _ _ ⟨ha, hh, hst.2.1⟩
  | _ => exact hold

/-- A move keeps what holds throughout a run. -/
theorem move (hs : s.Sound) (h : Moves work s a s') : s'.Sound where
  capacity := hs.capacity_move h
  nodup := hs.nodup_move h
  numbered := hs.numbered_move h
  accounted := hs.accounted_move h
  worked := hs.worked_move h
  held := hs.held_move h
  waiting := hs.waiting_move h
  stands := hs.stands_move h
  blamed := hs.blamed_move h
  fits := hs.fits_move h
  idle := hs.idle_move h

theorem run {actions : List (Action W Cmd O)} (hs : s.Sound)
    (h : s.run work actions = some s') : s'.Sound :=
  foldlM_inv (fun _ _ _ _ hm hstep ↦ hm.move (moves_of_step hstep)) hs h

end Sound

end Fits

/-! ## What an outcome says -/

namespace Sound

theorem fits_of_mem {outcome : Except (ServiceError E) Rep} (hs : s.Sound)
    (h : (reply, outcome) ∈ s.outcomes) : s.Fits reply outcome :=
  hs.fits _ h

/-- No request has two outcomes. -/
theorem count_answered_le (hs : s.Sound) (reply : RequestId) : s.answered.count reply ≤ 1 :=
  List.nodup_iff_count_le_one.mp (List.nodup_append.mp hs.nodup).1 reply

/-- An answered request has one outcome. -/
theorem count_answered (hs : s.Sound) (h : reply ∈ s.answered) : s.answered.count reply = 1 :=
  Nat.le_antisymm (hs.count_answered_le reply) (List.count_pos_iff.mpr h)

/-- The flag is set by a panic only. -/
theorem faulted_of_panicked (hs : s.Sound) (h : s.panicked = true) : s.faulted ≠ none := by
  intro hf
  have hst := hs.stands
  rw [h, hf] at hst
  cases ht : s.task with
  | caught reply message => exact nomatch (ht ▸ hst).2.1
  | flagged reply message => exact nomatch (ht ▸ hst).2.2
  | returning => exact nomatch (ht ▸ hst).2.2
  | dropping => exact nomatch (ht ▸ hst).2.2
  | stopped => exact nomatch (ht ▸ hst).2
  | handling reply cmd => exact nomatch (ht ▸ hst).2.1
  | replying reply output => exact nomatch (ht ▸ hst).2.1
  | _ => exact nomatch (ht ▸ hst).2.1

/-- What the task did not work on was refused or dropped. -/
theorem outcome_of_unhandled {outcome : Except (ServiceError E) Rep} (hs : s.Sound)
    (ha : reply ∈ s.accepted) (hh : reply ∉ s.handled) (h : (reply, outcome) ∈ s.outcomes) :
    (outcome = .error .cancelled ∧ s.faulted = none) ∨
      (outcome = .error .replyDropped ∧ s.panicked = true) := by
  have hf := hs.fits_of_mem h
  cases outcome with
  | ok output => exact absurd hf.2.1 hh
  | error error =>
      cases error with
      | gone => exact absurd ha hf.1
      | replyDropped => exact Or.inr ⟨rfl, hf.2.2⟩
      | cancelled => exact Or.inl ⟨rfl, hf.2.2.2⟩
      | panicked message => exact absurd hf.2.1 hh
      | topology error => exact absurd hf.2.1 hh

/-- The request whose work panicked is told so. -/
theorem outcome_of_faulted {outcome : Except (ServiceError E) Rep} (hs : s.Sound)
    (hr : s.faulted = some reply) (h : (reply, outcome) ∈ s.outcomes) :
    ∃ message, outcome = .error (.panicked message) := by
  have hf := hs.fits_of_mem h
  have hh := hs.blamed reply hr
  cases outcome with
  | ok output => exact absurd hr hf.2.2
  | error error =>
      cases error with
      | gone => exact absurd hh hf.2
      | replyDropped => exact absurd hh hf.2.1
      | cancelled => exact absurd hh hf.2.1
      | panicked message => exact ⟨message, rfl⟩
      | topology error => exact absurd hr hf.2.2

end Sound

/-! ## Answers draw nearer -/

/-- A bound on the steps of the task until a request is answered. -/
def remaining (s : Service W Cmd Rep E) (reply : RequestId) : Nat :=
  if reply ∈ s.inHand then s.task.handSteps else s.task.queueSteps (s.queued.idxOf reply)

/-- No answer is further away than this. -/
def patience : Nat := 5 * commandCapacity + 2

theorem remaining_of_inHand (h : reply ∈ s.inHand) : s.remaining reply = s.task.handSteps :=
  if_pos h

theorem Sound.remaining_of_queued (hs : s.Sound) (h : reply ∈ s.queued) :
    s.remaining reply = s.task.queueSteps (s.queued.idxOf reply) :=
  if_neg (hs.not_mem_inHand h)

theorem Task.queueSteps_le (task : Task Cmd Rep E) (ahead : Nat) :
    task.queueSteps ahead ≤ 5 * ahead + 7 := by
  cases task <;> simp only [Task.queueSteps] <;> omega

theorem Sound.remaining_le (hs : s.Sound) (h : reply ∈ s.inHand ∨ reply ∈ s.queued) :
    s.remaining reply ≤ patience := by
  rcases h with h | h
  · rw [remaining_of_inHand h]
    refine Nat.le_trans (m := 3) ?_ (by decide)
    cases s.task <;> simp [Task.handSteps]
  · rw [hs.remaining_of_queued h]
    refine (Task.queueSteps_le _ _).trans ?_
    have hlt : s.queued.idxOf reply < commandCapacity := by
      refine (List.idxOf_lt_length_of_mem h).trans_le ?_
      rw [queued, List.length_map, ← hs.capacity]
      exact s.rx.bounded
    rw [patience]
    omega

theorem remaining_hand_le {k n : Nat} (h : reply ∈ s.inHand) (hn : s.task.handSteps + k ≤ n) :
    s.remaining reply + k ≤ n := by
  rw [remaining_of_inHand h]
  exact hn

theorem Sound.remaining_queue_le {i k n : Nat} (hs : s.Sound) (h : reply ∈ s.queued)
    (hi : s.queued.idxOf reply = i) (hn : s.task.queueSteps i + k ≤ n) :
    s.remaining reply + k ≤ n := by
  rw [hs.remaining_of_queued h, hi]
  exact hn

/-- Every step of the task brings the answer to the request in hand closer. -/
theorem Moves.remaining_of_inHand (h : Moves work s a s') (hr : reply ∈ s.inHand) :
    reply ∈ s'.answered ∨
      reply ∈ s'.inHand ∧ s'.remaining reply + a.polls ≤ s.task.handSteps := by
  cases h with
  | worked ht =>
      rw [inHand_of_handling ht] at hr
      refine Or.inr ⟨hr, remaining_hand_le hr ?_⟩
      simp only [ht, Task.handSteps, Action.polls]
      decide
  | panics ht =>
      rw [inHand_of_handling ht] at hr
      refine Or.inr ⟨hr, remaining_hand_le hr ?_⟩
      simp only [ht, Task.handSteps, Action.polls]
      decide
  | flag ht =>
      rw [inHand_of_caught ht] at hr
      refine Or.inr ⟨hr, remaining_hand_le hr ?_⟩
      simp only [ht, Task.handSteps, Action.polls]
      decide
  | replied ht =>
      rw [inHand_of_replying ht] at hr
      refine Or.inl ?_
      change reply ∈ (s.answer _ _).answered
      rw [answered_answer]
      exact List.mem_append_right _ hr
  | report ht =>
      rw [inHand_of_flagged ht] at hr
      refine Or.inl ?_
      change reply ∈ (s.answer _ _).answered
      rw [answered_answer]
      exact List.mem_append_right _ hr
  | seeCancel ht | passToken ht | take ht | abandoned ht | wait ht | closes ht | refuse ht
  | drop ht => simp [Service.inHand, ht] at hr
  | stop ht => rcases ht with ht | ht <;> simp [Service.inHand, ht] at hr
  | handles ha =>
      refine Or.inr ⟨hr, remaining_hand_le hr ?_⟩
      rcases ha with rfl | rfl <;> exact Nat.le_refl _
  | _ => exact Or.inr ⟨hr, remaining_hand_le hr (Nat.le_refl _)⟩

/-- A request that is not the head of the queue is one place further to the front without
the head. -/
theorem idxOf_of_cons {r : RequestId} {q : List RequestId} {i : Nat} (hq : s.queued = r :: q)
    (hr : reply ∈ s.queued) (hn : reply ≠ r) (hi : s.queued.idxOf reply = i) :
    reply ∈ q ∧ ∃ j, q.idxOf reply = j ∧ i = j + 1 := by
  rw [hq] at hr hi
  rw [List.idxOf_cons_ne _ hn.symm] at hi
  exact ⟨(List.mem_cons.mp hr).resolve_left hn, _, rfl, hi.symm⟩

/-- Answering the head of the queue brings the answers to all requests behind it closer. -/
theorem Sound.remaining_of_head_answered {r : RequestId} {cmd : Cmd}
    {rx : Channel (RequestId × Cmd)} {outcome : Except (ServiceError E) Rep}
    (hs' : Sound { s.answer r outcome with rx := rx })
    (ht : s.task = .refusing ∨ s.task = .dropping) (hq : s.rx.queue = (r, cmd) :: rx.queue)
    (hr : reply ∈ s.queued) :
    reply ∈ (s.answer r outcome).answered ∨ reply ∈ rx.queue.map Prod.fst ∧
      remaining { s.answer r outcome with rx := rx } reply + 1 ≤
        s.task.queueSteps (s.queued.idxOf reply) := by
  by_cases he : reply = r
  · refine Or.inl ?_
    rw [answered_answer]
    exact List.mem_append_right _ (List.mem_singleton.mpr he)
  · obtain ⟨hr', j, hj, hi⟩ := idxOf_of_cons (queued_cons hq) hr he rfl
    refine Or.inr ⟨hr', hs'.remaining_queue_le hr' hj ?_⟩
    rw [hi]
    change s.task.queueSteps _ + 1 ≤ _
    rcases ht with ht | ht <;> simp only [ht, Task.queueSteps] <;> omega

/-- Every step of the task brings the answer to a queued request closer. -/
theorem Sound.remaining_of_queued_move (hs : s.Sound) (h : Moves work s a s')
    (hr : reply ∈ s.queued) :
    reply ∈ s'.answered ∨
      (reply ∈ s'.inHand ∨ reply ∈ s'.queued) ∧
        s'.remaining reply + a.polls ≤ s.remaining reply := by
  have hs' := hs.move h
  have hnil : s.rx.queue ≠ [] := fun hq ↦ by
    rw [queued, hq] at hr
    exact absurd hr List.not_mem_nil
  rw [hs.remaining_of_queued hr]
  generalize hi : s.queued.idxOf reply = i
  cases h with
  | @accepted cmd rx _ hq =>
      have hq' : rx.queue.map Prod.fst = s.queued ++ [s.next] := by
        rw [hq, List.map_append]
        rfl
      have hr' : reply ∈ rx.queue.map Prod.fst := hq' ▸ List.mem_append_left _ hr
      have hi' : (rx.queue.map Prod.fst).idxOf reply = i := by
        rw [hq', List.idxOf_append_of_mem hr, hi]
      exact Or.inr ⟨Or.inr hr', hs'.remaining_queue_le hr' hi' (Nat.le_refl _)⟩
  | handles ha =>
      refine Or.inr ⟨Or.inr hr, hs'.remaining_queue_le hr hi ?_⟩
      rcases ha with rfl | rfl <;> exact Nat.le_refl _
  | @take _ r cmd rx ht hq =>
      by_cases he : reply = r
      · have hr' : reply ∈ [r] := List.mem_singleton.mpr he
        refine Or.inr ⟨Or.inl hr', remaining_hand_le hr' ?_⟩
        simp only [ht, Task.handSteps, Task.queueSteps, Action.polls]
        omega
      · obtain ⟨hr', j, hj, rfl⟩ := idxOf_of_cons (queued_cons hq) hr he hi
        refine Or.inr ⟨Or.inr hr', hs'.remaining_queue_le hr' hj ?_⟩
        simp only [ht, Task.queueSteps, Action.polls]
        omega
  | refuse ht hq =>
      exact hi ▸ (hs'.remaining_of_head_answered (Or.inl ht) hq hr).imp_right
        fun hr' ↦ ⟨Or.inr hr'.1, hr'.2⟩
  | drop ht hq =>
      exact hi ▸ (hs'.remaining_of_head_answered (Or.inr ht) hq hr).imp_right
        fun hr' ↦ ⟨Or.inr hr'.1, hr'.2⟩
  | abandoned _ hq => exact absurd hq hnil
  | wait _ hq => exact absurd hq hnil
  | stop _ hq => exact absurd hq hnil
  | seeCancel ht | passToken ht | worked ht | panics ht | replied ht | flag ht | report ht
  | closes ht =>
      refine Or.inr ⟨Or.inr hr, hs'.remaining_queue_le hr hi ?_⟩
      simp only [ht, Task.queueSteps, Action.polls]
      omega
  | _ => exact Or.inr ⟨Or.inr hr, hs'.remaining_queue_le hr hi (Nat.le_refl _)⟩

/-- Answers stay. -/
theorem Moves.answered_subset (h : Moves work s a s') : s.answered ⊆ s'.answered := by
  cases h with
  | gone | replied | report | refuse | drop =>
      exact answered_answer ▸ List.subset_append_left _ _
  | _ => exact List.Subset.refl _

/-- The steps of the task in a run. -/
def polls (actions : List (Action W Cmd O)) : Nat := (actions.map Action.polls).sum

/-- A move brings the answer to a request closer, if it is a step of the task. -/
theorem Sound.remaining_move (hs : s.Sound) (h : Moves work s a s')
    (hr : reply ∈ s.inHand ∨ reply ∈ s.queued) :
    reply ∈ s'.answered ∨
      (reply ∈ s'.inHand ∨ reply ∈ s'.queued) ∧
        s'.remaining reply + a.polls ≤ s.remaining reply := by
  rcases hr with hr | hr
  · rw [remaining_of_inHand hr]
    exact (h.remaining_of_inHand hr).imp_right fun hr' ↦ ⟨Or.inl hr'.1, hr'.2⟩
  · exact hs.remaining_of_queued_move h hr

theorem answered_run {actions : List (Action W Cmd O)} (h : s.run work actions = some s')
    (hr : reply ∈ s.answered) : reply ∈ s'.answered :=
  foldlM_inv (P := fun t ↦ reply ∈ t.answered)
    (fun _ _ _ _ ht hstep ↦ (moves_of_step hstep).answered_subset ht) hr h

theorem accepted_run {actions : List (Action W Cmd O)} (h : s.run work actions = some s')
    (hr : reply ∈ s.accepted) : reply ∈ s'.accepted :=
  foldlM_inv (P := fun t ↦ reply ∈ t.accepted)
    (fun _ _ _ _ ht hstep ↦ (moves_of_step hstep).accepted_subset ht) hr h

/-- In a run a request is answered, or an answer gets as much closer as the task takes steps. -/
theorem Sound.remaining_run {actions : List (Action W Cmd O)} (hs : s.Sound)
    (h : s.run work actions = some s') (hr : reply ∈ s.inHand ∨ reply ∈ s.queued) :
    reply ∈ s'.answered ∨
      (reply ∈ s'.inHand ∨ reply ∈ s'.queued) ∧
        s'.remaining reply + polls actions ≤ s.remaining reply := by
  induction actions generalizing s with
  | nil =>
      cases h
      exact Or.inr ⟨hr, Nat.le_refl _⟩
  | cons a actions ih =>
      obtain ⟨mid, hstep, hrest⟩ := Option.bind_eq_some_iff.mp h
      have hmove := moves_of_step hstep
      rcases hs.remaining_move hmove hr with hm | ⟨hm, hle⟩
      · exact Or.inl (answered_run hrest hm)
      · rcases ih (hs.move hmove) hrest hm with hr' | ⟨hr', hle'⟩
        · exact Or.inl hr'
        · refine Or.inr ⟨hr', ?_⟩
          rw [polls, List.map_cons, List.sum_cons]
          rw [polls] at hle'
          omega

/-- A request does not wait longer than the service's patience lasts. -/
theorem Sound.answered_of_polls {actions : List (Action W Cmd O)} (hs : s.Sound)
    (h : s.run work actions = some s') (hr : reply ∈ s.accepted)
    (hp : patience < polls actions) : reply ∈ s'.answered := by
  rcases mem_places.mp (hs.accounted reply hr) with hr | hr
  · exact answered_run h hr
  · rcases hs.remaining_run h hr with hr' | ⟨-, hle⟩
    · exact hr'
    · exact absurd (hs.remaining_le hr) (by omega)

/-- A task that has stopped has answered everything. -/
theorem Sound.answered_of_stopped (hs : s.Sound) (ht : s.task = .stopped)
    (hr : reply ∈ s.accepted) : reply ∈ s.answered := by
  rcases mem_places.mp (hs.accounted reply hr) with hr | hr | hr
  · exact hr
  · rw [inHand, ht] at hr
    exact absurd hr List.not_mem_nil
  · rw [queued, hs.idle ht] at hr
    exact absurd hr List.not_mem_nil

/-! ## Nothing is worked on after a cancel or a panic -/

/-- The token is cancelled, and the task neither has the request nor is about to take it. -/
structure Spared (s : Service W Cmd Rep E) (reply : RequestId) : Prop where
  cancelled : s.cancelled = true
  accepted : reply ∈ s.accepted
  inHand : reply ∉ s.inHand
  handled : reply ∉ s.handled
  taking : s.taking ≠ some reply

/-- A request that is spared stays so. -/
theorem Sound.spared_move (hs : s.Sound) (h : Moves work s a s') (hr : s.Spared reply) :
    s'.Spared reply where
  cancelled := h.cancelled hr.cancelled
  accepted := h.accepted_subset hr.accepted
  inHand hi := (h.inHand reply hi).elim hr.inHand hr.taking
  handled hh := hr.handled ((h.mem_handled hr.inHand).mp hh)
  taking ht := by
    rcases h.taking ht with ht | hc | rfl
    · exact hr.taking ht
    · exact nomatch hc.symm.trans hr.cancelled
    · exact hs.next_not_mem_accepted hr.accepted

/-- A cancelled task does not work on a queued request, unless it is past its look at the token
and takes the request next. -/
theorem Sound.unhandled_of_cancelled {actions : List (Action W Cmd O)} (hs : s.Sound)
    (h : s.run work actions = some s') (hc : s.cancelled = true) (hr : reply ∈ s.queued)
    (ht : s.taking ≠ some reply) : reply ∉ s'.handled := by
  obtain ⟨ha, hh⟩ := hs.waiting reply hr
  have hspared : s.Spared reply := ⟨hc, ha, hs.not_mem_inHand hr, hh, ht⟩
  refine (foldlM_inv (P := fun t : Service W Cmd Rep E ↦ t.Sound ∧ t.Spared reply) ?_
    ⟨hs, hspared⟩ h).2.handled
  rintro a - t t' ⟨hts, htr⟩ hstep
  have hmove := moves_of_step hstep
  exact ⟨hts.move hmove, hts.spared_move hmove htr⟩

/-- A task that has seen the cancel refuses what is queued, and stops. -/
def Refusing (s : Service W Cmd Rep E) : Prop := s.task = .refusing ∨ s.task = .stopped

theorem Moves.refusing (h : Moves work s a s') (hr : s.Refusing) :
    s'.Refusing ∧ s'.handled = s.handled ∧ s'.faulted = s.faulted := by
  have hn : ∀ {r cmd}, s.task ≠ .handling r cmd := fun ht ↦
    hr.elim (fun h ↦ nomatch h.symm.trans ht) fun h ↦ nomatch h.symm.trans ht
  refine ⟨?_, h.handled.resolve_right fun ⟨_, _, ht, _⟩ ↦ hn ht,
    h.faulted.resolve_right fun ⟨_, _, ht, _⟩ ↦ hn ht⟩
  cases h with
  | stop => exact Or.inr rfl
  | seeCancel ht | passToken ht | take ht | abandoned ht | wait ht | worked ht | panics ht
  | replied ht | flag ht | report ht | closes ht =>
      exact hr.elim (fun h ↦ nomatch h.symm.trans ht) fun h ↦ nomatch h.symm.trans ht
  | _ => exact hr

theorem refusing_run {actions : List (Action W Cmd O)} (h : s.run work actions = some s')
    (hr : s.Refusing) : s'.handled = s.handled ∧ s'.faulted = s.faulted := by
  refine (foldlM_inv (P := fun t : Service W Cmd Rep E ↦
    t.Refusing ∧ t.handled = s.handled ∧ t.faulted = s.faulted) ?_ ⟨hr, rfl, rfl⟩ h).2
  rintro a - t t' ⟨ht, hh, he⟩ hstep
  obtain ⟨ht', hh', he'⟩ := (moves_of_step hstep).refusing ht
  exact ⟨ht', hh'.trans hh, he'.trans he⟩

/-- Nothing is worked on after a panic. -/
theorem Sound.faulted_move (hs : s.Sound) (h : Moves work s a s') (hf : s.faulted ≠ none) :
    s'.handled = s.handled ∧ s'.faulted = s.faulted := by
  have hn : ∀ {r cmd}, s.task ≠ .handling r cmd := fun {r cmd} ht ↦ by
    have hst := hs.stands
    rw [ht] at hst
    exact hf hst.2.2.1
  refine ⟨h.handled.resolve_right ?_, h.faulted.resolve_right ?_⟩
  · rintro ⟨r, cmd, ht, -⟩
    exact hn ht
  · rintro ⟨r, cmd, ht, -⟩
    exact hn ht

/-- A panic is the last thing a task works on. -/
theorem Sound.faulted_run {actions : List (Action W Cmd O)} (hs : s.Sound)
    (h : s.run work actions = some s') (hf : s.faulted ≠ none) :
    s'.handled = s.handled ∧ s'.faulted = s.faulted := by
  refine (foldlM_inv (P := fun t ↦ t.Sound ∧ t.handled = s.handled ∧ t.faulted = s.faulted)
    ?_ ⟨hs, rfl, rfl⟩ h).2
  rintro a - t t' ⟨ht, hh, he⟩ hstep
  have hmove := moves_of_step hstep
  obtain ⟨hh', he'⟩ := ht.faulted_move hmove (he ▸ hf)
  exact ⟨ht.move hmove, hh'.trans hh, he'.trans he⟩

end Invariant

end Service

end Koalisi.Subsystems
