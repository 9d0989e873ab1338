import Aircmn.Theory.Queue.Slist
import Aircmn.Theory.Queue.Stailq
import Aircmn.Theory.Queue.List
import Aircmn.Theory.Queue.Tailq
import Aircmn.Lib.Machine

/-!
# Programs with Lists and Queues

Any number of heads and elements of one layout, and any sequence of macros on
them. Memory may be in any state at the beginning, as nothing is read that has
not been written. As long as a program does what it may do, each macro answers
what the sequences say, also the loops and the macros that go back, and the
store holds the sequences at the end. What a program may do is judged by the
sequences alone.

## Main definitions

* `macroStep`: The macros of a structure.
* `smallLayout`, `smallProgram`: Two tail queues and two elements.

## Theorems

* `queue_step`: One macro.
* `queue_run`: Any number of them.
-/

namespace Aircmn

open Links Machine

/-- A macro of a structure. -/
def macroStep : QueueKind → Nat → Nat → Store → QueueOp → Store × QueueAns
  | .slist => slistStep
  | .stailq => stailqStep
  | .list => listStep
  | .tailq => tailqStep

theorem queue_step (k : QueueKind) (L : Layout k) (s : Store) (q : Queues) (hold : Holds L s q)
    (fuel : Nat) (op : QueueOp) (hlegal : QueueLegal L fuel q op) :
    (queueSpec q op).2 = (macroStep k L.off fuel s op).2 ∧
      Changed L s (macroStep k L.off fuel s op).1 (queueSpec q op).1 := by
  have hmakes : QueueMakes L q s (macroStep k L.off fuel s op).1 op ∧
      (macroStep k L.off fuel s op).2 = (queueSpec q op).2 := by
    cases k with
    | slist => exact slist_step L s q hold fuel op hlegal
    | stailq => exact stailq_step L s q hold fuel op hlegal
    | list => exact list_step L s q hold fuel op hlegal
    | tailq => exact tailq_step L s q hold fuel op hlegal
  exact ⟨hmakes.2.symm, changed_step L s _ q op hold hlegal.2.1 hmakes.1⟩

/-- Nothing has been initialised. -/
def noQueues : Queues := fun _ => none

theorem holds_none {k : QueueKind} (L : Layout k) (s : Store) : Holds L s noQueues := by
  refine ⟨⟨fun h xs hq => ?_, fun h x hx => ?_, fun h => List.nodup_nil, fun h h' x hx _ => ?_⟩,
    fun h hq => ?_⟩
  · exact absurd hq (Option.some_ne_none xs).symm
  · exact absurd hx List.not_mem_nil
  · exact absurd hx List.not_mem_nil
  · exact absurd hq Bool.false_ne_true

/-- From any store, a program that does what it may do is answered what the
    sequences say, and the store holds the sequences. -/
theorem queue_run (k : QueueKind) (L : Layout k) (fuel : Nat) (s : Store)
    (ops : List QueueOp) (hlegal : Along queueSpec (QueueLegal L fuel) noQueues ops) :
    (run (macroStep k L.off fuel) s ops).2 = (run queueSpec noQueues ops).2 ∧
      Holds L (run (macroStep k L.off fuel) s ops).1 (run queueSpec noQueues ops).1 := by
  rcases run_refines_along queueSpec (macroStep k L.off fuel) (QueueLegal L fuel)
    (fun q s => Holds L s q) (fun q s op hold h =>
      And.imp_right Changed.holds (queue_step k L s q hold fuel op h)) ops noQueues s
    (holds_none L s) hlegal with ⟨hans, hold⟩
  exact ⟨hans.symm, hold⟩

theorem sizes_le (k : QueueKind) : k.headSize ≤ 16 ∧ k.entrySize ≤ 16 := by
  cases k <;> decide

/-- Two heads and two elements. -/
def smallLayout (k : QueueKind) : Layout k where
  off := 16
  head := fun h => h = 8 ∨ h = 24
  elem := fun x => x = 100 ∨ x = 132
  elem_ne := by omega
  heads := by
    have hsizes := sizes_le k
    omega
  elems := by
    have hsizes := sizes_le k
    omega
  both := by
    have hsizes := sizes_le k
    omega

/-- Two queues with an element each become one, which is walked from its end. -/
def smallProgram : List QueueOp :=
  [.init 8, .init 24, .insertTail 8 100, .insertHead 24 132, .concat 8 24, .foreachReverse 8]

theorem smallProgram_legal :
    Along queueSpec (QueueLegal (smallLayout .tailq) 4) noQueues smallProgram := by
  simp only [smallProgram, Along, QueueLegal, QueueFits, queueSpec, QueueKind.has, smallLayout]
  refine ⟨⟨trivial, by decide, ?_⟩, ⟨trivial, by decide, ?_⟩,
    ⟨rfl, ⟨rfl, by decide, ?_⟩, ?_⟩, ⟨trivial, ⟨rfl, by decide, ?_⟩, ?_⟩,
    ⟨trivial, ⟨rfl, rfl, by decide⟩, ?_⟩, ⟨rfl, rfl, ?_⟩, trivial⟩
  all_goals
    intro h
    simp [noQueues, Queues.elems, Queues.set, Function.update_apply]
  all_goals
    split_ifs <;> simp

end Aircmn
