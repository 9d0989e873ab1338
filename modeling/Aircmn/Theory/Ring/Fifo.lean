import Aircmn.Lib.Machine
import Aircmn.Theory.Ring.Slots

/-!
# The Ring Array as a Queue

Used from one thread, a ring is a bounded queue of elements. The abstract
object is `queueStep`, a list with a capacity and an answer for each
operation; nothing in it knows about slots. The refinement is a simulation:
`RingHolds` says that the ring stands at two counters, that the live entries
of the sequence pushed so far are in their slots, and that what is left of the
sequence is the queue. Every operation of the code answers as the queue does
and keeps the relation, so every run does.

The sequence pushed so far is the ghost that makes the proof short. Positions
wrap and the queue shrinks, but the sequence only grows, and slot arithmetic
is only ever about indices into it.

## Main definitions

* `RingOp`, `RingOut`: Calls and answers.
* `ringStep`: The code.
* `queueStep`: The queue.
* `ringContents`: The occupied slots, in order.
* `RingHolds`: The simulation relation.

## Theorems

* `ringHolds_push`, `ringHolds_pop`, `ringHolds_flush`: What the operations
  do to the relation.
* `ringStep_refines`: One operation.
* `ring_refines_queue`: A whole run.
* `ring_one_slot`: A ring of one element, filled and drained.
-/

namespace Aircmn

open Bytes Circular

/-- A call. A pop may come without a destination. -/
inductive RingOp where
  | push (elem : Mem)
  | pop (elem : Bool)
  | flush
  | full
  | empty

/-- What a call returns; a pop also says what it copied to its destination. -/
inductive RingOut where
  | pushed (status : Status)
  | popped (status : Status) (bytes : Option (List UInt8))
  | flushed
  | answer (b : Bool)
deriving DecidableEq

/-- The code, on the ring at `r`. -/
def ringStep (r : Nat) (m : Mem) : RingOp → Mem × RingOut
  | .push elem => ((ringPush m r elem).2, .pushed (ringPush m r elem).1)
  | .pop elem =>
    ((ringPop m r elem).2.2, .popped (ringPop m r elem).1 (ringPop m r elem).2.1)
  | .flush => (ringFlush m r, .flushed)
  | .full => (m, .answer (ringFull m r))
  | .empty => (m, .answer (ringEmpty m r))

/-- A queue of at most `cap` elements of `width` bytes. -/
def queueStep (cap width : Nat) (q : List (List UInt8)) : RingOp → List (List UInt8) × RingOut
  | .push elem =>
    if q.length < cap then (q ++ [slice elem 0 width], .pushed cmnOk) else (q, .pushed cmnError)
  | .pop elem =>
    match q with
    | [] => ([], .popped cmnError none)
    | x :: rest => (rest, .popped cmnOk (if elem then some x else none))
  | .flush => ([], .flushed)
  | .full => (q, .answer (decide (q.length = cap)))
  | .empty => (q, .answer (decide (q.length = 0)))

/-- A call that was refused. -/
def RingOut.Refused : RingOut → Prop
  | .pushed status => status = cmnError
  | .popped status _ => status = cmnError
  | _ => False

/-- The occupied slots, from `rpos` on, wrapping after index `cap`. -/
def ringContents (g : RingGeom) (m : Mem) (r : Nat) : List (List UInt8) :=
  window g.slots (ringEntry g m r) (ringRpos m r).toNat
    (ringNelem (ringRpos m r) (ringWpos m r) (ringCap m r)).toNat

/-- The ring at `r` holds the queue `q`: of the sequence `log` pushed so far
    `R` elements have gone, and the rest is `q` and is in the slots. -/
structure RingHolds (g : RingGeom) (m : Mem) (r : Nat) (log : List (List UInt8)) (R : Nat)
    (q : List (List UInt8)) : Prop where
  header : RingAt g m r R log.length
  carries : Carries g.slots (ringEntry g m r) log R
  rest : q = log.drop R

theorem ringHolds_length (g : RingGeom) (m : Mem) (r : Nat) (log : List (List UInt8)) (R : Nat)
    (q : List (List UInt8)) (h : RingHolds g m r log R q) : q.length = log.length - R := by
  rw [h.rest, List.length_drop]

theorem ringHolds_contents (g : RingGeom) (m : Mem) (r : Nat) (log : List (List UInt8)) (R : Nat)
    (q : List (List UInt8)) (h : RingHolds g m r log R q) : ringContents g m r = q := by
  have hcount := ringNelem_counts g _ _ _ _ h.header.rpos h.header.wpos h.carries.le
    h.carries.room
  rw [ringContents, h.header.cap, h.rest]
  exact carries_window_all _ _ _ _ _ _ h.carries (by rw [h.header.rpos, Nat.mod_mod]) hcount

theorem ringHolds_full (g : RingGeom) (m : Mem) (r : Nat) (log : List (List UInt8)) (R : Nat)
    (q : List (List UInt8)) (h : RingHolds g m r log R q) :
    ringFull m r = decide (q.length = g.cap.toNat) := by
  have hiff := ringFull_iff g m r R log.length h.header h.carries.le h.carries.room
  rw [ringHolds_length g m r log R q h]
  exact Bool.eq_iff_iff.mpr (hiff.trans decide_eq_true_iff.symm)

theorem ringHolds_empty (g : RingGeom) (m : Mem) (r : Nat) (log : List (List UInt8)) (R : Nat)
    (q : List (List UInt8)) (h : RingHolds g m r log R q) :
    ringEmpty m r = decide (q.length = 0) := by
  have hiff := ringEmpty_iff g m r R log.length h.header h.carries.le h.carries.room
  rw [ringHolds_length g m r log R q h]
  exact Bool.eq_iff_iff.mpr (hiff.trans decide_eq_true_iff.symm)

/-- Filling the slot after the last live one adds an element to the sequence,
    before the position that announces it is stored. -/
theorem carries_pushCopy (g : RingGeom) (m : Mem) (r : Nat) (log : List (List UInt8)) (R : Nat)
    (elem : Mem) (h : RingAt g m r R log.length) (hc : Carries g.slots (ringEntry g m r) log R)
    (hroom : log.length + 1 < R + g.slots) :
    Carries g.slots (ringEntry g (ringPushCopy m r elem) r) (log ++ [slice elem 0 g.width]) R := by
  -- The copy stores one element in a slot that no live element uses.
  refine carries_append _ _ _ _ _ _ hc (by rw [List.length_singleton]; exact hroom) ?_ ?_
  · -- The one new element is in the slot at `wpos`.
    intro k hk
    have hk0 : k = 0 := by
      rw [List.length_singleton] at hk
      omega
    subst hk0
    exact ringPushCopy_entry g m r R log.length elem h
  · -- A live slot is less than a turn from it.
    -- Two counters that share a slot and are less than a turn apart are the same.
    intro i hR hi
    refine ringPushCopy_other g m r R log.length _ elem h (fun hslot => ?_)
    have hsame := mod_inj g.slots R _ _ hR (by omega) (by omega) (by omega) hslot
    omega

theorem ringHolds_push (g : RingGeom) (m : Mem) (r : Nat) (log : List (List UInt8)) (R : Nat)
    (q : List (List UInt8)) (elem : Mem) (h : RingHolds g m r log R q)
    (hroom : q.length < g.cap.toNat) :
    RingHolds g (ringPushStore (ringPushCopy m r elem) r) r (log ++ [slice elem 0 g.width]) R
      (q ++ [slice elem 0 g.width]) := by
  -- Room for one more element, in slots and in the log.
  have hlen := ringHolds_length g m r log R q h
  have hle := h.carries.le
  have hfree : log.length + 1 < R + g.slots := by
    unfold RingGeom.slots
    omega
  refine ⟨?_, ?_, ?_⟩
  · rw [List.length_append, List.length_singleton]
    exact ringPushStore_at g _ r R _ (ringPushCopy_at g m r R _ elem h.header)
  -- The second store is the position alone, which no element stands in.
  · refine carries_congr _ _ _ _ _ (carries_pushCopy g m r log R elem h.header h.carries hfree) ?_
    exact fun i _ _ => ringPushStore_entry g _ r _
  · rw [List.drop_append_of_le_length hle, h.rest]

theorem ringHolds_pop (g : RingGeom) (m : Mem) (r : Nat) (log : List (List UInt8)) (R : Nat)
    (x : List UInt8) (rest : List (List UInt8)) (h : RingHolds g m r log R (x :: rest)) :
    ringPopCopy m r = x ∧ RingHolds g (ringPopStore m r) r log (R + 1) rest := by
  have hlen := ringHolds_length g m r log R _ h
  rw [List.length_cons] at hlen
  have hlt : R < log.length := by omega
  -- The head of the queue is the oldest element still in its slot.
  have hhead : x :: rest = log[R] :: log.drop (R + 1) := by
    rw [h.rest, List.drop_eq_getElem_cons hlt]
  rw [List.cons.injEq] at hhead
  refine ⟨?_, ringPopStore_at g m r R _ h.header, ?_, hhead.2⟩
  · rw [ringPopCopy_eq g m r R _ h.header, h.carries.sits R hlt (Nat.le_refl _), hhead.1]
  · refine carries_congr _ _ _ _ _
      (carries_release _ _ _ _ _ h.carries (Nat.le_succ R) hlt) ?_
    exact fun i _ _ => ringSetRpos_entry g m r _ _

theorem ringHolds_flush (g : RingGeom) (m : Mem) (r : Nat) (log : List (List UInt8)) (R : Nat)
    (q : List (List UInt8)) (h : RingHolds g m r log R q) :
    RingHolds g (ringFlush m r) r log log.length [] := by
  refine ⟨ringSetRpos_at g m r R _ _ _ h.header h.header.wpos, ?_, List.drop_length.symm⟩
  refine carries_congr _ _ _ _ _
    (carries_release _ _ _ _ _ h.carries h.carries.le (Nat.le_refl _)) ?_
  exact fun i _ _ => ringSetRpos_entry g m r _ _

/-- One operation answers as the queue does, and keeps the relation. -/
theorem ringStep_refines (g : RingGeom) (r : Nat) (m : Mem) (q : List (List UInt8)) (op : RingOp)
    (h : ∃ log R, RingHolds g m r log R q) :
    (ringStep r m op).2 = (queueStep g.cap.toNat g.width q op).2 ∧
      ∃ log R, RingHolds g (ringStep r m op).1 r log R
        (queueStep g.cap.toNat g.width q op).1 := by
  rcases h with ⟨log, R, h⟩
  have hlen := ringHolds_length g m r log R q h
  have hroom := h.carries.room
  unfold RingGeom.slots at hroom
  cases op with
  | push elem =>
      simp only [ringStep, queueStep, ringPush, ringHolds_full g m r log R q h]
      -- Never more than `cap` are queued, so not full is less than full.
      by_cases hfull : q.length = g.cap.toNat
      · rw [if_pos (decide_eq_true hfull), if_neg (by omega)]
        exact ⟨rfl, log, R, h⟩
      · rw [if_neg (by rw [decide_eq_true_iff]; exact hfull), if_pos (by omega)]
        exact ⟨rfl, _, R, ringHolds_push g m r log R q elem h (by omega)⟩
  | pop elem =>
      simp only [ringStep, ringPop, ringHolds_empty g m r log R q h]
      cases q with
      | nil => exact ⟨rfl, log, R, h⟩
      | cons x rest =>
          rcases ringHolds_pop g m r log R x rest h with ⟨hx, hnext⟩
          refine ⟨?_, log, R + 1, hnext⟩
          simp only [queueStep, List.length_cons, Nat.succ_ne_zero, decide_false,
            Bool.false_eq_true, if_false, hx]
  | flush => exact ⟨rfl, log, log.length, ringHolds_flush g m r log R q h⟩
  | full =>
      simp only [ringStep, queueStep, ringHolds_full g m r log R q h]
      exact ⟨trivial, log, R, h⟩
  | empty =>
      simp only [ringStep, queueStep, ringHolds_empty g m r log R q h]
      exact ⟨trivial, log, R, h⟩

theorem ringHolds_setup (g : RingGeom) (m : Mem) (r : Nat) :
    RingHolds g (ringSetup m r g.cap g.elemSize) r [] 0 [] :=
  ⟨ringAt_setup g m r, carries_nil _ _ (Nat.succ_pos _), rfl⟩

/-- A refused call returns without a store. -/
theorem ringStep_refused (r : Nat) (m : Mem) (op : RingOp) (h : (ringStep r m op).2.Refused) :
    (ringStep r m op).1 = m := by
  -- A push that is refused returns CMN_ERROR before it stores, and so does a pop.
  cases op with
  | push elem =>
      simp only [ringStep, ringPush, RingOut.Refused] at h ⊢
      by_cases hfull : ringFull m r = true
      · rw [if_pos hfull]
      · rw [if_neg hfull] at h
        exact absurd h (show ¬ cmnOk = cmnError by decide)
  | pop elem =>
      simp only [ringStep, ringPop, RingOut.Refused] at h ⊢
      by_cases hempty : ringEmpty m r = true
      · rw [if_pos hempty]
      · rw [if_neg hempty] at h
        exact absurd h (show ¬ cmnOk = cmnError by decide)
  | flush => exact absurd h (fun hc => hc)
  -- The two questions store nothing and are never refused.
  | full => rfl
  | empty => rfl

/-- A ring refines a queue of at most `cap` elements: over every run from a
    ring just created or set up it answers as the queue does, its occupied
    slots are the queue, its positions stay in range, and a call that it
    refuses leaves memory as it was. -/
theorem ring_refines_queue (g : RingGeom) (r : Nat) (m₀ m : Mem) (ops : List RingOp)
    (hstart : m = ringSetup m₀ r g.cap g.elemSize ∨
      ringCreate (some r) m₀ g.cap g.elemSize = (some r, m)) :
    (Machine.run (ringStep r) m ops).2
        = (Machine.run (queueStep g.cap.toNat g.width) [] ops).2 ∧
      ringContents g (Machine.run (ringStep r) m ops).1 r
        = (Machine.run (queueStep g.cap.toNat g.width) [] ops).1 ∧
      (Machine.run (queueStep g.cap.toNat g.width) [] ops).1.length ≤ g.cap.toNat ∧
      (ringRpos (Machine.run (ringStep r) m ops).1 r).toNat ≤ g.cap.toNat ∧
      (ringWpos (Machine.run (ringStep r) m ops).1 r).toNat ≤ g.cap.toNat ∧
      ∀ op, (ringStep r (Machine.run (ringStep r) m ops).1 op).2.Refused →
        (ringStep r (Machine.run (ringStep r) m ops).1 op).1
          = (Machine.run (ringStep r) m ops).1 := by
  -- Both ways of making the ring leave the memory of ring_setup.
  have hm : m = ringSetup m₀ r g.cap g.elemSize := by
    rcases hstart with hsetup | hcreate
    · exact hsetup
    · rw [ringCreate_eq, Prod.mk.injEq] at hcreate
      exact hcreate.2.symm
  -- One refinement for the whole run, from which the contents and the positions are read off.
  have hrun := Machine.run_refines (ringStep r) (queueStep g.cap.toNat g.width)
    (fun m q => ∃ log R, RingHolds g m r log R q)
    (fun m q op h => ringStep_refines g r m q op h) ops m []
    ⟨[], 0, by rw [hm]; exact ringHolds_setup g m₀ r⟩
  rcases hrun with ⟨hout, log, R, h⟩
  -- The queue is as long as the log from R on.
  have hlen := ringHolds_length _ _ _ _ _ _ h
  have hroom := h.carries.room
  have hrlt := g.mod_lt R
  have hwlt := g.mod_lt log.length
  unfold RingGeom.slots at hroom
  -- Answers and contents are the refinement's; the bounds follow from the counters.
  refine ⟨hout, ringHolds_contents _ _ _ _ _ _ h, by omega, ?_, ?_,
    fun op hop => ringStep_refused r _ op hop⟩
  · rw [h.header.rpos]
    exact Nat.le_of_lt_succ hrlt
  · rw [h.header.wpos]
    exact Nat.le_of_lt_succ hwlt

/-- A ring of one element of four bytes: the second push is refused, and the
    first element comes out as it went in. -/
theorem ring_one_slot :
    (Machine.run (ringStep 0) (ringSetup (fun _ => 9) 0 1 4)
        [.push (fun i => UInt8.ofNat i), .push (fun _ => 5), .full, .pop true, .empty]).2
      = [.pushed cmnOk, .pushed cmnError, .answer true, .popped cmnOk (some [0, 1, 2, 3]),
        .answer true] :=
  (ring_refines_queue ⟨4, 1, by decide, by decide⟩ 0 (fun _ => 9) _ _ (Or.inl rfl)).1.trans
    (by decide)

end Aircmn
