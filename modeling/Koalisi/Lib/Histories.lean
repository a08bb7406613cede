import Mathlib.Data.List.Basic

/-!
# Sequential histories of an object

An object answers operations one at a time, and each may change its state.  A history is a list of
operations with their answers, and it is legal if the object gives just these answers when it is
asked in this order.  What holds between any two operations of a legal history is shown by what an
operation leaves behind: a fact about the state that no later operation undoes.

The object may be used by many at once.  Then the operations have their effects one after the other
all the same, and the history that shows this is written at these moments.
-/

universe u v w

namespace Koalisi.Lib

/-- An operation and its answer. -/
structure Call (Op : Type v) (Res : Type w) where
  op : Op
  res : Res
deriving DecidableEq, Repr

variable {σ : Type u} {Op : Type v} {Res : Type w}

/-- The answers of a history are those of the object, from one state to another. -/
inductive Legal (apply : σ → Op → Res × σ) : σ → List (Call Op Res) → σ → Prop where
  | nil (s : σ) : Legal apply s [] s
  | cons {s s' : σ} {op : Op} {history : List (Call Op Res)} :
      Legal apply (apply s op).2 history s' →
        Legal apply s (⟨op, (apply s op).1⟩ :: history) s'

/-- The object after some operations. -/
def after (apply : σ → Op → Res × σ) (s : σ) (ops : List Op) : σ :=
  ops.foldl (fun s op ↦ (apply s op).2) s

namespace Legal

variable {apply : σ → Op → Res × σ} {s s' s'' : σ} {history history' : List (Call Op Res)}

theorem append (h : Legal apply s history s') (h' : Legal apply s' history' s'') :
    Legal apply s (history ++ history') s'' := by
  induction h with
  | nil s => exact h'
  | cons _ ih => exact .cons (ih h')

/-- One more operation. -/
theorem concat (h : Legal apply s history s') (op : Op) :
    Legal apply s (history ++ [⟨op, (apply s' op).1⟩]) (apply s' op).2 :=
  h.append (.cons (.nil _))

/-- What is left of an object by its operations. -/
theorem after_eq (h : Legal apply s history s') : after apply s (history.map Call.op) = s' := by
  induction h with
  | nil s => rfl
  | cons _ ih => exact ih

/-- An answer is that of the object after the operations before it. -/
theorem res_eq (h : Legal apply s history s') {i : Nat} {c : Call Op Res}
    (hc : history[i]? = some c) :
    c.res = (apply (after apply s ((history.take i).map Call.op)) c.op).1 := by
  induction h generalizing i with
  | nil s => cases hc
  | cons _ ih =>
      cases i with
      | zero =>
          cases hc
          rfl
      | succ i => exact ih hc

section Invariant

variable {ok : Call Op Res → Prop} {leaves : Call Op Res → σ → Prop}
variable {before : Call Op Res → Call Op Res → Prop}

/-- What an operation left behind stays, and the later operations come after it. -/
theorem leaves_forall
    (hkeep : ∀ c s op, ok ⟨op, (apply s op).1⟩ → leaves c s → leaves c (apply s op).2)
    (hbefore : ∀ c s op, ok ⟨op, (apply s op).1⟩ → leaves c s → before c ⟨op, (apply s op).1⟩)
    {c : Call Op Res} (h : Legal apply s history s') (hok : ∀ c ∈ history, ok c)
    (hc : leaves c s) : leaves c s' ∧ ∀ c' ∈ history, before c c' := by
  induction h with
  | nil s => exact ⟨hc, fun c' hc' ↦ nomatch hc'⟩
  | @cons s s' op history hrest ih =>
      have hfirst := hok _ List.mem_cons_self
      obtain ⟨hleft, hall⟩ := ih (fun c hc ↦ hok c (List.mem_cons_of_mem _ hc))
        (hkeep c s op hfirst hc)
      refine ⟨hleft, fun c' hc' ↦ ?_⟩
      rcases List.mem_cons.mp hc' with rfl | hc'
      · exact hbefore c s op hfirst hc
      · exact hall c' hc'

/-- If every operation leaves something behind that stays, any two stand in the order that it
gives. -/
theorem pairwise (ok : Call Op Res → Prop) (hleaves : ∀ s op, ok ⟨op, (apply s op).1⟩ →
      leaves ⟨op, (apply s op).1⟩ (apply s op).2)
    (hkeep : ∀ c s op, ok ⟨op, (apply s op).1⟩ → leaves c s → leaves c (apply s op).2)
    (hbefore : ∀ c s op, ok ⟨op, (apply s op).1⟩ → leaves c s → before c ⟨op, (apply s op).1⟩)
    (h : Legal apply s history s') (hok : ∀ c ∈ history, ok c) :
    history.Pairwise before ∧ ∀ c ∈ history, leaves c s' := by
  induction h with
  | nil s => exact ⟨.nil, fun c hc ↦ nomatch hc⟩
  | @cons s s' op history hrest ih =>
      have hlater := fun c hc ↦ hok c (List.mem_cons_of_mem _ hc)
      have hfirst := hleaves s op (hok _ List.mem_cons_self)
      obtain ⟨hleft, hall⟩ := leaves_forall hkeep hbefore hrest hlater hfirst
      obtain ⟨hpairwise, hrests⟩ := ih hlater
      refine ⟨List.pairwise_cons.mpr ⟨hall, hpairwise⟩, fun c hc ↦ ?_⟩
      rcases List.mem_cons.mp hc with rfl | hc
      · exact hleft
      · exact hrests c hc

end Invariant

end Legal

end Koalisi.Lib
