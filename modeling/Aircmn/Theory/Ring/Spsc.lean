import Aircmn.Core.RingThreads
import Aircmn.Theory.Ring.Fifo
import Mathlib.Data.List.Forall2

/-!
# One Writer and One Reader on a Ring

A thread that pushes and a thread that pops and flushes, in any interleaving
of their steps.

Each thread reads its own position fresh and the other's from a snapshot. The
counters behind the positions only grow, so a ring that was not full when the
writer looked is not full when it stores, and an element the reader saw is
still there when it copies. The program points carry these facts, and nothing
else has to be remembered about a snapshot, except by a flush: it stores the
write position of an earlier moment, which stands for a counter between the
two current ones.

An element is in the sequence from the moment its bytes are in the slot, and
announced from the moment `wpos` is stored. The slot invariant ranges over the
sequence including the unannounced element, which is what lets a reader move
while the writer is between its copy and its store.

What the reader has taken out is accounted for by `Fate`: each recorded call
took a run of consecutive elements, and all the runs put together, followed
by what is in the ring, are exactly what was pushed. A pop with a destination
took the one element it delivered, a pop without one took one element, and a
flush took as many as it found.

## Main definitions

* `ringPending`: An element copied and not yet announced.
* `RingWriterOk`, `RingReaderOk`: What holds at a program point.
* `Fate`: What a recorded call took.
* `RingInv`: The invariant.
* `QueueSafe`: What the callers rely on.

## Theorems

* `ringPush_steps`, `ringPop_steps`, `ringFlush_steps`: A call whose steps are
  not interrupted is the sequential call.
* `ringWriter_inv`, `ringReader_inv`: A thread going on keeps the invariant.
* `ringAct_inv`: So does every step.
* `ringInv_safe`: The invariant gives safety.
* `ring_spsc_safe`: Safety in every reachable state.
* `ring_spsc_run`: A run with a pop, a drop and a flush.
-/

namespace Aircmn

open Bytes Circular

theorem ringPush_steps (r : Nat) (s : RingWorld) (elem : Mem) (hidle : s.writer = .idle)
    (hfull : ringFull s.mem r = false) :
    (Machine.steps (ringAct r) s [.push elem, .writer, .writer]).map
        (fun s' => (s'.mem, s'.writer))
      = some ((ringPush s.mem r elem).2, .idle) := by
  simp only [Machine.steps, ringAct, hidle, hfull, ringPush, Bool.false_eq_true, if_false,
    Option.bind_some, Option.map_some]

/-- A pop without a destination makes no copy, and takes a step less. -/
theorem ringPop_steps (r : Nat) (s : RingWorld) (elem : Bool) (hidle : s.reader = .idle)
    (hempty : ringEmpty s.mem r = false) :
    (Machine.steps (ringAct r) s (.pop elem :: List.replicate (if elem then 2 else 1) .reader)).map
        (fun s' => (s'.mem, s'.reader, s'.taken))
      = some ((ringPop s.mem r elem).2.2, .idle,
        s.taken ++ [popRecord (ringPop s.mem r elem).2.1]) := by
  cases elem
  all_goals simp only [Machine.steps, ringAct, hidle, hempty, ringPop, Bool.false_eq_true,
    if_false, if_true, List.replicate, Option.bind_some, Option.map_some]

theorem ringFlush_steps (r : Nat) (s : RingWorld) (hidle : s.reader = .idle) :
    (Machine.steps (ringAct r) s [.flush, .reader]).map (fun s' => (s'.mem, s'.reader))
      = some (ringFlush s.mem r, .idle) := by
  simp only [Machine.steps, ringAct, hidle, ringFlush, Option.bind_some, Option.map_some]

/-- An element the writer has copied and not yet announced. -/
def ringPending (g : RingGeom) : RingWriter → List (List UInt8)
  | .store elem => [slice elem 0 g.width]
  | _ => []

/-- What holds where the writer stands, with `R` elements gone and `W` come. -/
def RingWriterOk (g : RingGeom) (R W : Nat) : RingWriter → Prop
  | .copy _ => W + 1 < R + g.slots
  | _ => True

/-- What holds where the reader stands, the elements pushed being `log`. -/
def RingReaderOk (g : RingGeom) (R : Nat) (log : List (List UInt8)) : RingReader → Prop
  | .idle => True
  | .copy => R < log.length
  | .store none => R < log.length
  | .store (some bytes) => log[R]? = some bytes
  | .flush wpos => ∃ F, R ≤ F ∧ F ≤ log.length ∧ wpos.toNat = F % g.slots

/-- The elements a recorded call took out of the ring. -/
def Fate : RingTake → List (List UInt8) → Prop
  | .popped bytes, part => part = [bytes]
  | .dropped, part => part.length = 1
  | .flushed, _ => True

/-- The invariant, with `R` elements gone. -/
structure RingInv (g : RingGeom) (r : Nat) (s : RingWorld) (R : Nat) : Prop where
  header : RingAt g s.mem r R s.pushed.length
  le : R ≤ s.pushed.length
  carries : Carries g.slots (ringEntry g s.mem r) (s.pushed ++ ringPending g s.writer) R
  writer : RingWriterOk g R s.pushed.length s.writer
  reader : RingReaderOk g R s.pushed s.reader
  fates : ∃ parts, List.Forall₂ Fate s.taken parts ∧ parts.flatten = s.pushed.take R

theorem ringInv_room (g : RingGeom) (r : Nat) (s : RingWorld) (R : Nat) (h : RingInv g r s R) :
    s.pushed.length < R + g.slots := by
  have hroom := h.carries.room
  rw [List.length_append] at hroom
  omega

/-- The announced elements alone sit in their slots too. -/
theorem ringInv_announced (g : RingGeom) (r : Nat) (s : RingWorld) (R : Nat)
    (h : RingInv g r s R) : Carries g.slots (ringEntry g s.mem r) s.pushed R := by
  refine ⟨h.le, ringInv_room g r s R h, fun i hi hR => ?_⟩
  rw [h.carries.sits i (by rw [List.length_append]; omega) hR, List.getElem_append_left hi]

theorem ringWriterOk_release (g : RingGeom) (R R' W : Nat) (pc : RingWriter) (hle : R ≤ R')
    (h : RingWriterOk g R W pc) : RingWriterOk g R' W pc := by
  cases pc with
  | copy elem =>
      simp only [RingWriterOk] at h ⊢
      omega
  | idle => trivial
  | store elem => trivial

theorem ringReaderOk_publish (g : RingGeom) (R : Nat) (log : List (List UInt8))
    (x : List UInt8) (pc : RingReader) (h : RingReaderOk g R log pc) :
    RingReaderOk g R (log ++ [x]) pc := by
  have hlen : (log ++ [x]).length = log.length + 1 := by
    rw [List.length_append, List.length_singleton]
  -- Each point of the reader speaks of elements that are already in the log, and one more changes
  -- none of them.
  cases pc with
  | idle => trivial
  | copy =>
      simp only [RingReaderOk, hlen] at h ⊢
      omega
  | store bytes =>
      cases bytes with
      | none =>
          simp only [RingReaderOk, hlen] at h ⊢
          omega
      -- The element taken was at R before, and stays there in the longer log.
      | some b =>
          simp only [RingReaderOk] at h ⊢
          rcases List.getElem?_eq_some_iff.mp h with ⟨hR, _⟩
          rw [List.getElem?_append_left hR, h]
  | flush wpos =>
      rcases h with ⟨F, hRF, hF, hw⟩
      exact ⟨F, hRF, by rw [hlen]; omega, hw⟩

theorem ringWriter_inv (g : RingGeom) (r : Nat) (s s' : RingWorld) (R : Nat)
    (h : RingInv g r s R) (hstep : ringAct r s .writer = some s') : RingInv g r s' R := by
  simp only [ringAct] at hstep
  have hle := h.le
  cases hpc : s.writer with
  | idle =>
      rw [hpc] at hstep
      simp only [reduceCtorEq] at hstep
  | copy elem =>
      rw [hpc] at hstep
      simp only [Option.some.injEq] at hstep
      -- The slot is free, the reader having only moved on since the test.
      have hroom := h.writer
      rw [hpc] at hroom
      rw [← hstep]
      exact ⟨ringPushCopy_at g s.mem r R s.pushed.length elem h.header, hle,
        carries_pushCopy g s.mem r s.pushed R elem h.header (ringInv_announced g r s R h) hroom,
        trivial, h.reader, h.fates⟩
  | store elem =>
      rw [hpc] at hstep
      simp only [Option.some.injEq] at hstep
      rw [h.header.elemSize, sizeOfInt_of_pos _ g.pos] at hstep
      -- The pending element is announced; nothing moves in memory but `wpos`.
      have hlen : (s.pushed ++ [slice elem 0 g.width]).length = s.pushed.length + 1 := by
        rw [List.length_append, List.length_singleton]
      have hcarries := h.carries
      rw [hpc] at hcarries
      rcases h.fates with ⟨parts, hparts, hflat⟩
      rw [← hstep]
      refine ⟨?_, ?_, ?_, trivial, ringReaderOk_publish g R _ _ _ h.reader, parts, hparts, ?_⟩
      · rw [show (s.pushed ++ [slice elem 0 (elemBytes g.elemSize)]).length
          = s.pushed.length + 1 from hlen]
        exact ringPushStore_at g _ r R _ h.header
      · rw [show (s.pushed ++ [slice elem 0 (elemBytes g.elemSize)]).length
          = s.pushed.length + 1 from hlen]
        omega
      · simp only [ringPending, List.append_nil]
        exact carries_congr _ _ _ _ _ hcarries (fun i _ _ => ringPushStore_entry g _ r _)
      · rw [hflat]
        exact (List.take_append_of_le_length hle).symm

/-- A store of `rpos` that moves the reader's counter to `R'`, with the record
    of the call that took the elements in between. -/
theorem ringSetRpos_inv (g : RingGeom) (r : Nat) (s : RingWorld) (R R' : Nat) (v : UInt32)
    (take : RingTake) (h : RingInv g r s R) (hle : R ≤ R') (hlen : R' ≤ s.pushed.length)
    (hv : v.toNat = R' % g.slots) (hfate : Fate take ((s.pushed.drop R).take (R' - R))) :
    RingInv g r { s with
      mem := ringSetRpos s.mem r v
      reader := .idle
      taken := s.taken ++ [take] } R' := by
  -- The reader may not pass what has been pushed.
  have hlog : R' ≤ (s.pushed ++ ringPending g s.writer).length := by
    rw [List.length_append]
    omega
  rcases h.fates with ⟨parts, hparts, hflat⟩
  -- Its header and its taken elements move on by R' - R.
  refine ⟨ringSetRpos_at g _ r R _ R' v h.header hv, hlen, ?_,
    ringWriterOk_release g R R' _ _ hle h.writer, trivial,
    parts ++ [(s.pushed.drop R).take (R' - R)], ?_, ?_⟩
  · refine carries_congr _ _ _ _ _ (carries_release _ _ _ _ _ h.carries hle hlog) ?_
    exact fun i _ _ => ringSetRpos_entry g _ r _ v
  · -- The record and the run of elements it took go to the end together.
    exact List.rel_append hparts (List.Forall₂.cons hfate List.Forall₂.nil)
  · rw [List.flatten_append, List.flatten_singleton, hflat, ← List.take_add,
      Nat.add_sub_cancel' hle]

theorem ringReader_inv (g : RingGeom) (r : Nat) (s s' : RingWorld) (R : Nat)
    (h : RingInv g r s R) (hstep : ringAct r s .reader = some s') : ∃ R', RingInv g r s' R' := by
  simp only [ringAct] at hstep
  have hrd := h.reader
  cases hpc : s.reader with
  | idle =>
      rw [hpc] at hstep
      simp only [reduceCtorEq] at hstep
  | copy =>
      rw [hpc] at hstep hrd
      simp only [Option.some.injEq] at hstep
      -- The writer may have a copy of its own pending, in another slot.
      have hcopy : ringPopCopy s.mem r = s.pushed[R] := by
        rw [ringPopCopy_eq g _ r R _ h.header]
        exact (ringInv_announced g r s R h).sits R hrd (Nat.le_refl _)
      rw [← hstep]
      refine ⟨R, h.header, h.le, h.carries, h.writer, ?_, h.fates⟩
      simp only [RingReaderOk, hcopy]
      exact List.getElem?_eq_getElem hrd
  | store bytes =>
      rw [hpc] at hstep hrd
      simp only [Option.some.injEq] at hstep
      have hlt : R < s.pushed.length := by
        cases bytes with
        | none => exact hrd
        | some b => exact (List.getElem?_eq_some_iff.mp hrd).1
      -- One element is let go of, the one that was copied if any was.
      have hone : (s.pushed.drop R).take (R + 1 - R) = [s.pushed[R]] := by
        rw [Nat.add_sub_cancel_left, List.drop_eq_getElem_cons hlt, List.take_succ_cons,
          List.take_zero]
      have hv : ((ringRpos s.mem r + 1) % (ringCap s.mem r + 1)).toNat = (R + 1) % g.slots := by
        rw [h.header.cap]
        exact next_counts g _ R h.header.rpos
      rw [← hstep]
      refine ⟨R + 1, ringSetRpos_inv g r s R (R + 1) _ _ h (Nat.le_succ R) hlt hv ?_⟩
      rw [hone]
      cases bytes with
      | none => rfl
      | some b =>
          have hb := List.getElem?_eq_some_iff.mp hrd
          simp only [popRecord, Fate, List.cons.injEq, and_true]
          exact hb.2
  | flush wpos =>
      rw [hpc] at hstep hrd
      simp only [Option.some.injEq] at hstep
      -- The position stored is that of the counter when `wpos` was loaded.
      rcases hrd with ⟨F, hRF, hF, hw⟩
      rw [← hstep]
      exact ⟨F, ringSetRpos_inv g r s R F wpos .flushed h hRF hF hw trivial⟩

theorem ringAct_inv (g : RingGeom) (r : Nat) (s s' : RingWorld) (act : RingAct) (R : Nat)
    (h : RingInv g r s R) (hstep : ringAct r s act = some s') : ∃ R', RingInv g r s' R' := by
  have hroom := ringInv_room g r s R h
  have hle := h.le
  -- The writer's and the reader's steps have their own lemmas; a call starts them.
  cases act with
  | writer => exact ⟨R, ringWriter_inv g r s s' R h hstep⟩
  | reader => exact ringReader_inv g r s s' R h hstep
  | push elem =>
      simp only [ringAct] at hstep
      cases hpc : s.writer with
      | idle =>
          rw [hpc] at hstep
          by_cases hfull : ringFull s.mem r = true
          -- A full ring refuses the push, and no thread has moved.
          · simp only [if_pos hfull, Option.some.injEq] at hstep
            rw [← hstep]
            exact ⟨R, h⟩
          · simp only [if_neg hfull, Option.some.injEq] at hstep
            have hcarries := h.carries
            rw [hpc] at hcarries
            -- The test on the ring is the test on the counters, so the writer may go on.
            rw [ringFull_iff g _ r R _ h.header hle hroom] at hfull
            rw [← hstep]
            refine ⟨R, h.header, hle, hcarries, ?_, h.reader, h.fates⟩
            simp only [RingWriterOk]
            unfold RingGeom.slots at *
            omega
      | _ =>
          rw [hpc] at hstep
          simp only [reduceCtorEq] at hstep
  | pop elem =>
      simp only [ringAct] at hstep
      cases hpc : s.reader with
      | idle =>
          rw [hpc] at hstep
          -- An empty ring refuses the pop.
          by_cases hempty : ringEmpty s.mem r = true
          · simp only [if_pos hempty, Option.some.injEq] at hstep
            rw [← hstep]
            exact ⟨R, h⟩
          · simp only [if_neg hempty, Option.some.injEq] at hstep
            rw [ringEmpty_iff g _ r R _ h.header hle hroom] at hempty
            -- An element has been pushed and not taken, which is what the reader waits for.
            have hlt : R < s.pushed.length := by omega
            rw [← hstep]
            refine ⟨R, h.header, hle, h.carries, h.writer, ?_, h.fates⟩
            cases elem with
            | true => exact hlt
            | false => exact hlt
      | _ =>
          rw [hpc] at hstep
          simp only [reduceCtorEq] at hstep
  | flush =>
      simp only [ringAct] at hstep
      cases hpc : s.reader with
      | idle =>
          rw [hpc] at hstep
          simp only [Option.some.injEq] at hstep
          rw [← hstep]
          -- ring_flush reads wpos, and every element pushed so far will be gone.
          exact ⟨R, h.header, hle, h.carries, h.writer,
            ⟨_, hle, Nat.le_refl _, h.header.wpos⟩, h.fates⟩
      | _ =>
          rw [hpc] at hstep
          simp only [reduceCtorEq] at hstep

/-- What the callers rely on. -/
structure QueueSafe (g : RingGeom) (r : Nat) (s : RingWorld) : Prop where
  /-- Everything pushed was taken, in order, by the recorded calls, or is
      still in the ring. -/
  fates : ∃ parts, List.Forall₂ Fate s.taken parts ∧
    parts.flatten ++ ringContents g s.mem r = s.pushed
  occupied : (ringNelem (ringRpos s.mem r) (ringWpos s.mem r) (ringCap s.mem r)).toNat
    ≤ g.cap.toNat
  rpos_le : (ringRpos s.mem r).toNat ≤ g.cap.toNat
  wpos_le : (ringWpos s.mem r).toNat ≤ g.cap.toNat
  /-- A push about to copy writes a slot of the block that is apart from every
      occupied one. -/
  apart : ∀ elem, s.writer = .copy elem →
    ringSlot s.mem r (ringWpos s.mem r)
        = r + ringHdrSize + g.width * (ringWpos s.mem r).toNat ∧
      sizeOfInt (ringElemSize s.mem r) = g.width ∧
      ∀ i, i < (ringNelem (ringRpos s.mem r) (ringWpos s.mem r) (ringCap s.mem r)).toNat →
        ((ringRpos s.mem r).toNat + i) % g.slots ≠ (ringWpos s.mem r).toNat

theorem ringInv_safe (g : RingGeom) (r : Nat) (s : RingWorld) (R : Nat) (h : RingInv g r s R) :
    QueueSafe g r s := by
  have hroom := ringInv_room g r s R h
  have hle := h.le
  -- The counters tell everything that QueueSafe asks for.
  have hcount := ringNelem_counts g _ _ _ _ h.header.rpos h.header.wpos hle hroom
  rw [← h.header.cap] at hcount
  have hrlt := g.mod_lt R
  have hwlt := g.mod_lt s.pushed.length
  refine ⟨?_, ?_, ?_, ?_, ?_⟩
  -- What has been taken and what is still there are the two parts of the pushes.
  · rcases h.fates with ⟨parts, hparts, hflat⟩
    have hcontents := ringHolds_contents g s.mem r s.pushed R _
      ⟨h.header, ringInv_announced g r s R h, rfl⟩
    exact ⟨parts, hparts, by rw [hflat, hcontents, List.take_append_drop]⟩
  · rw [hcount]
    unfold RingGeom.slots at hroom
    omega
  · rw [h.header.rpos]
    exact Nat.le_of_lt_succ hrlt
  · rw [h.header.wpos]
    exact Nat.le_of_lt_succ hwlt
  -- The slot that the writer copies into: in bounds, and of no element in the queue.
  · intro elem hpc
    have hfree := h.writer
    rw [hpc] at hfree
    simp only [RingWriterOk] at hfree
    refine ⟨ringSlot_eq g _ r R _ _ h.header (by rw [h.header.wpos]; exact hwlt), ?_, ?_⟩
    · rw [h.header.elemSize, sizeOfInt_of_pos _ g.pos]
      rfl
    -- Between counter R and the writer's slot there is less than a turn.
    · -- An occupied slot and the free one stand for counters within a turn.
      intro i hi hslot
      rw [hcount] at hi
      rw [h.header.rpos, h.header.wpos, Nat.mod_add_mod] at hslot
      have hsame := mod_inj g.slots R _ _ (by omega) (by omega) hle (by omega) hslot
      omega

theorem ringInv_start (g : RingGeom) (r : Nat) (m : Mem) :
    RingInv g r (ringThreads (ringSetup m r g.cap g.elemSize)) 0 :=
  ⟨ringAt_setup g m r, Nat.le_refl _, carries_nil _ _ (Nat.succ_pos _), trivial, trivial,
    [], List.Forall₂.nil, rfl⟩

/-- Under every interleaving of a pushing thread and a popping and flushing
    thread, every reachable state is safe. -/
theorem ring_spsc_safe (g : RingGeom) (r : Nat) (m : Mem) (acts : List RingAct) (s : RingWorld)
    (hrun : Machine.steps (ringAct r) (ringThreads (ringSetup m r g.cap g.elemSize)) acts
      = some s) : QueueSafe g r s := by
  rcases Machine.steps_invariant_along (ringAct r) (fun _ => True)
    (fun s => ∃ R, RingInv g r s R)
    (fun t act t' ht _ hstep => ht.elim (fun R hR => ringAct_inv g r t t' act R hR hstep))
    acts _ s ⟨0, ringInv_start g r m⟩ (fun _ _ => trivial) hrun with ⟨R, h⟩
  exact ringInv_safe g r s R h

/-- A ring of two slots of one byte. -/
def pairRing : RingGeom := ⟨1, 2, by decide, by decide⟩

/-- A pop between the steps of a push, a pop without a destination, and a
    flush that loads `wpos` before the last push stores it. -/
def popDropFlush : List RingAct :=
  [.push (fun _ => 5), .pop true, .writer, .writer, .push (fun _ => 6), .pop true, .writer,
    .reader, .reader, .writer, .pop false, .reader, .push (fun _ => 7), .writer, .flush, .writer,
    .reader, .push (fun _ => 8), .writer, .writer, .push (fun _ => 9)]

/-- The flush discards nothing, and the ring ends full. -/
theorem ring_spsc_run :
    ∃ s, Machine.steps (ringAct 0) (ringThreads (ringSetup (fun _ => 0) 0 2 1)) popDropFlush
        = some s ∧
      QueueSafe pairRing 0 s ∧ s.taken = [.popped [5], .dropped, .flushed] ∧
      s.pushed = [[5], [6], [7], [8]] ∧ ringFull s.mem 0 = true := by
  refine ⟨_, rfl, ring_spsc_safe pairRing 0 (fun _ => 0) popDropFlush _ rfl, ?_, ?_, ?_⟩
  all_goals decide +kernel

end Aircmn
