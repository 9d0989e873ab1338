import Aircmn.Core.RingProcs
import Aircmn.Theory.Sms.Users

/-!
# A Ring at Several Addresses

`shmat` is asked for no address, so every process has a segment somewhere else. A
ring keeps no addresses, and every function of `cmn_ring.c` computes the places
it reads and stores to from the address it is given. So a step at one address is
the step at any other, as far as the memory from there on goes.

With that, two processes that have a ring at addresses of their own do what two
threads do, and the ring is as safe for them as for threads. Nothing in the
segment but the ring is stored to, and outside of it nothing in the process that
pushes.

The process that pops has the elements in its own memory, where its calls asked
for them. The destination may be anywhere but in the segment, which is all that a
caller has to see to; then a copy reaches nothing that is shared, and what the
process is left with outside of the segment is what it had, with the elements
stored over it in order.

## Main definitions

* `ReaderMoves`: A step, for the thread that pops.
* `RingTake.bytes`, `RingReader.held`, `RingWorld.handed`: The elements that the
  pops have handed out.
* `ProcsFollow`: Processes, and threads that do the same.
* `pushAndPop`, `ringBases`: A push by one process and a pop by the other.

## Theorems

* `ringSlot_seenFrom`, `ringPushCopy_seenFrom`, `ringPopCopy_seenFrom`,
  `ringSetup_seenFrom`: The functions at another address.
* `ringAct_seenFrom`, `ringAct_above`: A step at another address.
* `ringSetup_local`, `ringSetup_frame`: What setting up a ring depends on.
* `storeAll_append`, `storeAll_outside`, `storeAll_same`: Copies to a memory.
* `ringAct_moves`: What a step is for the thread that pops.
* `copiedOut_handed`, `copiedOut_width`, `copiedOut_pushes`, `copiedOut_apart`,
  `dest_asked`: What a step copies, and where to.
* `ringAct_own`: The memory of a process outside of the segment.
* `ringProcs_follow`, `ringProcAct_follows`: The beginning, and a step of a process.
* `ring_procs_as_threads`, `ring_procs_as_threads_apart`: Every run.
-/

namespace Aircmn

open Bytes Machine

section SeenFrom

variable (b r : Nat) (m : Mem)

theorem ringElemSize_seenFrom : ringElemSize m (b + r) = ringElemSize (seenFrom b m) r :=
  congrArg UInt32.toInt32 (load32_seenFrom b m r)

theorem ringCap_seenFrom : ringCap m (b + r) = ringCap (seenFrom b m) r := by
  rw [ringCap, Nat.add_assoc]
  exact load32_seenFrom b m (r + 4)

theorem ringRpos_seenFrom : ringRpos m (b + r) = ringRpos (seenFrom b m) r := by
  rw [ringRpos, Nat.add_assoc]
  exact load32_seenFrom b m (r + 8)

theorem ringWpos_seenFrom : ringWpos m (b + r) = ringWpos (seenFrom b m) r := by
  rw [ringWpos, Nat.add_assoc]
  exact load32_seenFrom b m (r + 12)

theorem ringSlot_seenFrom (pos : UInt32) :
    ringSlot m (b + r) pos = b + ringSlot (seenFrom b m) r pos := by
  simp only [ringSlot, ringElemSize_seenFrom, Nat.add_assoc]

theorem ringFull_seenFrom : ringFull m (b + r) = ringFull (seenFrom b m) r := by
  simp only [ringFull, ringRpos_seenFrom, ringWpos_seenFrom, ringCap_seenFrom]

theorem ringEmpty_seenFrom : ringEmpty m (b + r) = ringEmpty (seenFrom b m) r := by
  simp only [ringEmpty, ringRpos_seenFrom, ringWpos_seenFrom, ringCap_seenFrom]

theorem ringPushCopy_seenFrom (elem : Mem) :
    seenFrom b (ringPushCopy m (b + r) elem) = ringPushCopy (seenFrom b m) r elem := by
  simp only [ringPushCopy, ringWpos_seenFrom, ringSlot_seenFrom, ringElemSize_seenFrom, memcpy]
  exact seenFrom_blit b m _ _ _

theorem ringSetRpos_seenFrom (rpos : UInt32) :
    seenFrom b (ringSetRpos m (b + r) rpos) = ringSetRpos (seenFrom b m) r rpos := by
  rw [ringSetRpos, Nat.add_assoc]
  exact seenFrom_store32 b m (r + 8) rpos

theorem ringPushStore_seenFrom :
    seenFrom b (ringPushStore m (b + r)) = ringPushStore (seenFrom b m) r := by
  simp only [ringPushStore, ringWpos_seenFrom, ringCap_seenFrom, ringSetWpos, Nat.add_assoc]
  exact seenFrom_store32 b m (r + 12) _

theorem ringPopCopy_seenFrom : ringPopCopy m (b + r) = ringPopCopy (seenFrom b m) r := by
  simp only [ringPopCopy, ringRpos_seenFrom, ringSlot_seenFrom, ringElemSize_seenFrom]
  exact slice_seenFrom b m _ _

theorem ringPopStore_seenFrom :
    seenFrom b (ringPopStore m (b + r)) = ringPopStore (seenFrom b m) r := by
  simp only [ringPopStore, ringRpos_seenFrom, ringCap_seenFrom]
  exact ringSetRpos_seenFrom b r m _

theorem ringSetup_seenFrom (cap : UInt32) (elemSize : Int32) :
    seenFrom b (ringSetup m (b + r) cap elemSize) = ringSetup (seenFrom b m) r cap elemSize := by
  simp only [ringSetup, Nat.add_assoc, seenFrom_store32]

end SeenFrom

/-- A step knows addresses only relative to that of the ring. -/
theorem ringAct_seenFrom (b r : Nat) (s : RingWorld) (act : RingAct) :
    (ringAct (b + r) s act).map (fun s' => { s' with mem := seenFrom b s'.mem })
      = ringAct r { s with mem := seenFrom b s.mem } act := by
  -- A case for each constructor of RingAct: the step reads nothing but the ring's own fields, and
  -- each has its seenFrom equation above.
  cases act with
  | push elem =>
      cases hpc : s.writer with
      | idle =>
          simp only [ringAct, hpc, ringFull_seenFrom]
          -- A full ring ends the push at once, and the same test is made from either address.
          split
          · simp only [Option.map_some, hpc]
          · rfl
      | _ => simp only [ringAct, hpc, Option.map_none]
  | pop elem =>
      cases hpc : s.reader with
      | idle =>
          simp only [ringAct, hpc, ringEmpty_seenFrom]
          split
          · simp only [Option.map_some, hpc]
          · rfl
      | _ => simp only [ringAct, hpc, Option.map_none]
  | flush =>
      cases hpc : s.reader with
      | idle => simp only [ringAct, hpc, Option.map_some, ringWpos_seenFrom]
      | _ => simp only [ringAct, hpc, Option.map_none]
  | writer =>
      cases hpc : s.writer with
      | idle => simp only [ringAct, hpc, Option.map_none]
      | copy elem => simp only [ringAct, hpc, Option.map_some, ringPushCopy_seenFrom]
      | store elem =>
          simp only [ringAct, hpc, Option.map_some, ringPushStore_seenFrom, ringElemSize_seenFrom]
  | reader =>
      cases hpc : s.reader with
      | idle => simp only [ringAct, hpc, Option.map_none]
      | copy => simp only [ringAct, hpc, Option.map_some, ringPopCopy_seenFrom]
      | store bytes => simp only [ringAct, hpc, Option.map_some, ringPopStore_seenFrom]
      -- ring_flush stores the position it has read, which is no address.
      | flush wpos => simp only [ringAct, hpc, Option.map_some, ringSetRpos_seenFrom]

/-- Nothing below the ring is stored to. -/
theorem ringAct_above (r : Nat) (s s' : RingWorld) (act : RingAct)
    (hstep : ringAct r s act = some s') : ∀ i, i < r → s'.mem i = s.mem i := by
  intro i hi
  -- The two stores of rpos, at the end of a pop and at the end of a flush.
  have hset : ∀ rpos, ringSetRpos s.mem r rpos i = s.mem i := fun rpos =>
    blit_outside _ _ _ _ _ (by omega)
  cases act with
  | push elem =>
      cases hpc : s.writer with
      | idle =>
          simp only [ringAct, hpc] at hstep
          -- ring_push either returns with the ring full or goes on to its copy; neither has stored
          -- yet.
          split at hstep
          all_goals
            cases hstep
            rfl
      | _ => simp only [ringAct, hpc, reduceCtorEq] at hstep
  | pop elem =>
      cases hpc : s.reader with
      | idle =>
          simp only [ringAct, hpc] at hstep
          split at hstep
          all_goals
            cases hstep
            rfl
      | _ => simp only [ringAct, hpc, reduceCtorEq] at hstep
  | flush =>
      cases hpc : s.reader with
      | idle =>
          simp only [ringAct, hpc] at hstep
          cases hstep
          rfl
      | _ => simp only [ringAct, hpc, reduceCtorEq] at hstep
  | writer =>
      cases hpc : s.writer with
      | idle => simp only [ringAct, hpc, reduceCtorEq] at hstep
      | copy elem =>
          simp only [ringAct, hpc] at hstep
          cases hstep
          -- A slot lies behind the header, so above r whatever wpos says.
          have hslot : i < ringSlot s.mem r (ringWpos s.mem r) := by
            unfold ringSlot
            omega
          simp only [ringPushCopy, memcpy]
          exact blit_outside _ _ _ _ _ (Or.inl hslot)
      | store elem =>
          simp only [ringAct, hpc] at hstep
          cases hstep
          exact blit_outside _ _ _ _ _ (by omega)
  | reader =>
      cases hpc : s.reader with
      | idle => simp only [ringAct, hpc, reduceCtorEq] at hstep
      | copy =>
          simp only [ringAct, hpc] at hstep
          cases hstep
          -- The copy of a pop leaves the segment: nothing of it changes here.
          rfl
      | store bytes =>
          simp only [ringAct, hpc] at hstep
          cases hstep
          exact hset _
      | flush wpos =>
          simp only [ringAct, hpc] at hstep
          cases hstep
          exact hset wpos

section Setup

variable (r : Nat) (cap : UInt32) (elemSize : Int32)

theorem ringSetup_local (lo hi : Nat) (m m' : Mem) (h : SameOn lo hi m m') :
    SameOn lo hi (ringSetup m r cap elemSize) (ringSetup m' r cap elemSize) := by
  simp only [ringSetup, store32]
  iterate 4 refine sameOn_blit _ _ _ _ _ _ _ ?_
  exact h

/-- Only the header is stored to. -/
theorem ringSetup_frame (m : Mem) :
    SameOutside r (r + ringHdrSize) m (ringSetup m r cap elemSize) := by
  intro i hi
  unfold ringHdrSize at hi
  simp only [ringSetup, store32]
  iterate 4 rw [blit_outside _ _ _ _ _ (by omega)]

end Setup

section Copies

theorem storeAll_append (m : Mem) (xs ys : List (Nat × List UInt8)) :
    storeAll m (xs ++ ys) = storeAll (storeAll m xs) ys :=
  List.foldl_append

/-- Copies to other places than the interval. -/
theorem storeAll_outside (lo hi : Nat) : ∀ (copies : List (Nat × List UInt8)) (m : Mem),
    (∀ c ∈ copies, c.1 + c.2.length ≤ lo ∨ hi ≤ c.1) → SameOn lo hi m (storeAll m copies) := by
  intro copies
  induction copies with
  | nil =>
      intro m _
      exact sameOn_refl lo hi m
  | cons c copies ih =>
      intro m h
      have hfirst := h c List.mem_cons_self
      refine sameOn_trans _ _ _ _ _ ?_ (ih _ (fun c' hc' => h c' (List.mem_cons_of_mem c hc')))
      exact sameOn_of_sameOutside _ _ _ _ _ _
        (sameOutside_blit _ _ m c.1 c.2.length _ (Nat.le_refl _) (Nat.le_refl _)) (by omega)

/-- The same copies to two memories keep them in agreement. -/
theorem storeAll_same (lo hi : Nat) : ∀ (copies : List (Nat × List UInt8)) (m m' : Mem),
    SameOutside lo hi m m' → SameOutside lo hi (storeAll m copies) (storeAll m' copies) := by
  intro copies
  induction copies with
  | nil =>
      intro m m' h
      exact h
  | cons c copies ih =>
      intro m m' h
      refine ih _ _ (fun i hi => ?_)
      simp only [blit, h i hi]

/-- The element a recorded call has handed out. -/
def RingTake.bytes : RingTake → Option (List UInt8)
  | .popped bytes => some bytes
  | _ => none

/-- The element a call under way has copied. -/
def RingReader.held : RingReader → List (List UInt8)
  | .store (some bytes) => [bytes]
  | _ => []

/-- The elements that the pops have handed out. -/
def RingWorld.handed (s : RingWorld) : List (List UInt8) :=
  s.taken.filterMap RingTake.bytes ++ s.reader.held

/-- What a step is for the thread that pops, where `slot` is the element that it
    would copy. -/
inductive ReaderMoves (slot : List UInt8) :
    RingAct → RingReader → RingReader → List RingTake → List RingTake → Prop
  | stays (act : RingAct) (pc : RingReader) (taken : List RingTake) :
      ReaderMoves slot act pc pc taken taken
  | pop (elem : Bool) (taken : List RingTake) :
      ReaderMoves slot (.pop elem) .idle (if elem then .copy else .store none) taken taken
  | flush (wpos : UInt32) (taken : List RingTake) :
      ReaderMoves slot .flush .idle (.flush wpos) taken taken
  | copy (taken : List RingTake) :
      ReaderMoves slot .reader .copy (.store (some slot)) taken taken
  | store (bytes : Option (List UInt8)) (taken : List RingTake) :
      ReaderMoves slot .reader (.store bytes) .idle taken (taken ++ [popRecord bytes])
  | flushed (wpos : UInt32) (taken : List RingTake) :
      ReaderMoves slot .reader (.flush wpos) .idle taken (taken ++ [.flushed])

theorem ringAct_moves (r : Nat) (s t : RingWorld) (act : RingAct)
    (hstep : ringAct r s act = some t) :
    ReaderMoves (ringPopCopy s.mem r) act s.reader t.reader s.taken t.taken := by
  -- Only the reader's four steps change what the reader holds; all others leave it where it is.
  cases act with
  | push elem =>
      cases hpc : s.writer with
      | idle =>
          simp only [ringAct, hpc] at hstep
          split at hstep
          all_goals
            cases hstep
            exact .stays _ _ _
      | _ => simp only [ringAct, hpc, reduceCtorEq] at hstep
  | writer =>
      cases hpc : s.writer with
      | idle => simp only [ringAct, hpc, reduceCtorEq] at hstep
      | _ =>
          simp only [ringAct, hpc] at hstep
          cases hstep
          exact .stays _ _ _
  | pop elem =>
      cases hpc : s.reader with
      | idle =>
          simp only [ringAct, hpc] at hstep
          split at hstep
          -- On an empty ring the pop returns and the reader never leaves idle.
          · cases hstep
            rw [hpc]
            exact .stays _ _ _
          · cases hstep
            exact .pop elem _
      | _ => simp only [ringAct, hpc, reduceCtorEq] at hstep
  | flush =>
      cases hpc : s.reader with
      | idle =>
          simp only [ringAct, hpc] at hstep
          cases hstep
          exact .flush _ _
      | _ => simp only [ringAct, hpc, reduceCtorEq] at hstep
  | reader =>
      cases hpc : s.reader with
      | idle => simp only [ringAct, hpc, reduceCtorEq] at hstep
      | copy =>
          simp only [ringAct, hpc] at hstep
          cases hstep
          exact .copy _
      | store bytes =>
          simp only [ringAct, hpc] at hstep
          cases hstep
          exact .store bytes _
      | flush wpos =>
          simp only [ringAct, hpc] at hstep
          cases hstep
          exact .flushed wpos _

theorem copiedOut_self (elem : Nat) (pc : RingReader) : copiedOut elem pc pc = [] := by
  cases pc <;> rfl

/-- What a step copies is what it hands out. -/
theorem copiedOut_handed (r elem : Nat) (s t : RingWorld) (act : RingAct)
    (hstep : ringAct r s act = some t) :
    t.handed = s.handed ++ (copiedOut elem s.reader t.reader).map Prod.snd := by
  -- What is left is a statement about the reader's program counter and the list taken alone.
  have hmoves := ringAct_moves r s t act hstep
  rw [RingWorld.handed, RingWorld.handed]
  generalize s.reader = pc, t.reader = pc', s.taken = taken, t.taken = taken' at hmoves ⊢
  cases hmoves with
  | stays => rw [copiedOut_self, List.map_nil, List.append_nil]
  -- A pop has been called and holds nothing yet, with or without an address to copy to.
  | pop elem => cases elem <;> simp [copiedOut, RingReader.held]
  | flush wpos => simp [copiedOut, RingReader.held]
  | copy => simp [copiedOut, RingReader.held]
  -- The second half of a pop moves what is held to taken: the same bytes, handed over once.
  | store bytes =>
      cases bytes <;>
        simp [copiedOut, RingReader.held, popRecord, RingTake.bytes]
  | flushed wpos => simp [copiedOut, RingReader.held, RingTake.bytes]

/-- It is an element of the ring, and goes to the destination of the call. -/
theorem copiedOut_width (g : RingGeom) (r elem : Nat) (s t : RingWorld) (act : RingAct) (R : Nat)
    (h : RingInv g r s R) (hstep : ringAct r s act = some t) :
    ∀ c ∈ copiedOut elem s.reader t.reader,
      s.reader = .copy ∧ c.1 = elem ∧ c.2.length = g.width := by
  have hmoves := ringAct_moves r s t act hstep
  have hwidth : (ringPopCopy s.mem r).length = g.width := by
    rw [ringPopCopy, slice_length, h.header.elemSize, sizeOfInt_of_pos _ g.pos]
    rfl
  -- Of all moves only the copy of a pop stores anything in the process's own memory.
  generalize s.reader = pc, t.reader = pc', s.taken = taken, t.taken = taken' at hmoves ⊢
  intro c hc
  cases hmoves with
  | stays =>
      rw [copiedOut_self] at hc
      exact absurd hc List.not_mem_nil
  | copy =>
      rw [List.mem_singleton.mp hc]
      exact ⟨rfl, rfl, hwidth⟩
  | _ => exact absurd hc (by simp [copiedOut])

/-- The process that pushes copies nothing out. -/
theorem copiedOut_pushes (r elem : Nat) (s t : RingWorld) (act : RingProcAct)
    (hp : act.pushes = true) (hstep : ringAct r s act.thread = some t) :
    copiedOut elem s.reader t.reader = [] := by
  -- A push and a step of the writer leave the reader alone, so there is no copy of theirs.
  have hmoves := ringAct_moves r s t act.thread hstep
  cases act with
  | push elem' =>
      generalize s.reader = pc, t.reader = pc', s.taken = taken, t.taken = taken' at hmoves ⊢
      cases hmoves
      exact copiedOut_self elem pc
  | writer =>
      generalize s.reader = pc, t.reader = pc', s.taken = taken, t.taken = taken' at hmoves ⊢
      cases hmoves
      exact copiedOut_self elem pc
  | _ => exact absurd hp Bool.false_ne_true

/-- A copy to memory that is not shared leaves the shared memory. -/
theorem copiedOut_apart (g : RingGeom) (r elem b size : Nat) (s t : RingWorld) (act : RingAct)
    (R : Nat) (m : Mem) (h : RingInv g r s R) (hstep : ringAct r s act = some t)
    (hdest : s.reader = .copy → elem + g.width ≤ b ∨ b + size ≤ elem) :
    SameOn b (b + size) m (storeAll m (copiedOut elem s.reader t.reader)) := by
  refine storeAll_outside _ _ _ _ (fun c hc => ?_)
  rcases copiedOut_width g r elem s t act R h hstep c hc with ⟨hcopy, haddr, hwidth⟩
  rw [haddr, hwidth]
  exact hdest hcopy

/-- A pop that is about to copy has a destination that a call has asked for. -/
theorem dest_asked (asked : Nat → Prop) (r elem : Nat) (s t : RingWorld) (act : RingProcAct)
    (hact : ∀ a, act = .pop (some a) → asked a) (hstep : ringAct r s act.thread = some t)
    (hs : s.reader = .copy → asked elem) (ht : t.reader = .copy) : asked (act.dest elem) := by
  have hmoves := ringAct_moves r s t act.thread hstep
  -- A reader that is about to copy was either called by this pop or was there before.
  generalize s.reader = pc, t.reader = pc', s.taken = taken, t.taken = taken' at hmoves hs ht
  subst ht
  cases act with
  | pop elem' =>
      cases elem' with
      | some a => exact hact a rfl
      -- ring_pop with a NULL elem drops the element and never comes to the copy.
      | none =>
          cases hmoves with
          | stays => exact hs rfl
  | _ =>
      cases hmoves with
      | stays => exact hs rfl

end Copies

section Procs

variable (g : RingGeom) (size : Nat) (base : Bool → Nat) (off : Nat) (start : RingProcs)
  (asked : Nat → Prop)

/-- The processes stand where the threads do, the ring has the same bytes for
    both, and all else is as it was, but for what the pops have copied to where
    they were asked to. -/
structure ProcsFollow (w : RingProcs) (s : RingWorld) : Prop where
  inv : ∃ R, RingInv g off w.ring R
  users : s.users = w.ring.users
  same : SameOn off (off + g.bytes) w.ring.mem s.mem
  shared : SameOutside off (off + g.bytes) start.ring.mem w.ring.mem
  pusher : SameOutside (base true) (base true + size) (start.own true) (w.own true)
  popper : SameOutside (base false) (base false + size) (storeAll (start.own false) w.copied)
    (w.own false)
  handed : w.copied.map Prod.snd = w.ring.handed
  dest : w.ring.reader = .copy → asked w.elem
  dests : ∀ c ∈ w.copied, asked c.1

/-- Below the segment there is nothing of the ring, above it nothing of its
    block. -/
theorem ringAct_own (b : Nat) (hin : off + g.bytes ≤ size) (shared own : Mem) (s t : RingWorld)
    (act : RingAct) (hframe : SameOutside off (off + g.bytes)
      (seenFrom b (mapped b size shared own)) (seenFrom b t.mem))
    (hs : s.mem = mapped b size shared own) (ht : ringAct (b + off) s act = some t) :
    SameOutside b (b + size) own t.mem := by
  intro i hi
  refine Eq.trans ?_ (mapped_outside b size shared own i hi)
  rcases hi with hlow | hhigh
  · rw [← hs]
    exact ringAct_above _ _ _ act ht i (by omega)
  · rcases Nat.exists_eq_add_of_le (Nat.le_of_add_right_le hhigh) with ⟨j, rfl⟩
    exact hframe j (by omega)

/-- A process has gone on to `t`, and what it has copied out has not been to the
    shared memory. -/
theorem after_follows (hin : off + g.bytes ≤ size) (w : RingProcs) (s s' t : RingWorld) (p : Bool)
    (elem : Nat) (out : List (Nat × List UInt8)) (h : ProcsFollow g size base off start asked w s)
    (hnext : ∃ R, RingInv g off (t.users.world (seenFrom (base p) t.mem)) R)
    (hframe : SameOutside off (off + g.bytes)
      (seenFrom (base p) (mapped (base p) size w.ring.mem (w.own p))) (seenFrom (base p) t.mem))
    (hown : SameOutside (base p) (base p + size) (w.own p) t.mem)
    (hout : SameOn (base p) (base p + size) t.mem (storeAll t.mem out))
    (hpushes : p = true → out = []) (hhanded : t.handed = w.ring.handed ++ out.map Prod.snd)
    (hdest : t.reader = .copy → asked elem) (hdests : ∀ c ∈ out, asked c.1)
    (husers : s'.users = t.users)
    (hsame : SameOn off (off + g.bytes) (seenFrom (base p) t.mem) s'.mem) :
    ProcsFollow g size base off start asked (w.after size (base p) p elem t out) s' := by
  -- What is written back from the process's mapping is what the step left in the ring's block.
  have hwritten : SameOn off (off + g.bytes) (seenFrom (base p) t.mem)
      (written (base p) size w.ring.mem (storeAll t.mem out)) :=
    sameOn_trans _ _ _ _ _ (fun i _ hi => hout (base p + i) (by omega) (by omega))
      (written_seenFrom_same (base p) size off (off + g.bytes) w.ring.mem _ hin)
  rcases hnext with ⟨R, hR⟩
  -- The invariant and the agreement with the threads first, as both speak of the ring's block.
  refine ⟨⟨R, ?_⟩, husers, ?_, ?_, ?_, ?_, ?_, hdest, ?_⟩
  · exact ringInv_congr g off t.users (seenFrom (base p) t.mem) _ R hR hwritten
  · exact sameOn_trans _ _ _ _ _ (sameOn_symm _ _ _ _ hwritten) hsame
  · -- The rest of the segment is as the process has found it.
    intro i hi
    refine Eq.trans ?_ (h.shared i hi)
    simp only [RingProcs.after, written]
    split
    · rename_i hlt
      have hkept := hframe i hi
      rw [seenFrom, seenFrom, mapped, if_pos (by omega), Nat.add_sub_cancel_left] at hkept
      rw [seenFrom, hout (base p + i) (by omega) (by omega), hkept]
    · rfl
  -- Of the processes' own memory only that of the one that has just run can have changed.
  · cases p with
    | true =>
        rw [hpushes rfl]
        simp only [RingProcs.after, Function.update_self]
        exact sameOutside_trans _ _ _ _ _ h.pusher hown
    | false =>
        simp only [RingProcs.after, Function.update_of_ne (Ne.symm Bool.false_ne_true)]
        exact h.pusher
  · -- The copies so far and then this one, over what the process had.
    cases p with
    | true =>
        rw [hpushes rfl]
        simp only [RingProcs.after, Function.update_of_ne Bool.false_ne_true, List.append_nil]
        exact h.popper
    | false =>
        simp only [RingProcs.after, Function.update_self, storeAll_append]
        exact storeAll_same _ _ out _ _ (sameOutside_trans _ _ _ _ _ h.popper hown)
  -- Every element is copied in the order in which the ring has handed them over.
  · simp only [RingProcs.after, List.map_append, h.handed]
    exact hhanded.symm
  · intro c hc
    exact (List.mem_append.mp hc).elim (h.dests c) (hdests c)

theorem ringProcAct_follows (hin : off + g.bytes ≤ size)
    (hasked : ∀ a, asked a → a + g.width ≤ base false ∨ base false + size ≤ a)
    (w w' : RingProcs) (s : RingWorld) (act : RingProcAct)
    (hact : ∀ a, act = .pop (some a) → asked a) (h : ProcsFollow g size base off start asked w s)
    (hstep : ringProcAct size base off w act = some w') :
    ∃ s', ringAct off s act.thread = some s' ∧
      ProcsFollow g size base off start asked w' s' := by
  rcases h.inv with ⟨R, hinv⟩
  rcases Option.map_eq_some_iff.mp hstep with ⟨t, ht, rfl⟩
  have hhanded := copiedOut_handed _ w.elem _ t act.thread ht
  have hpushes := fun hp => copiedOut_pushes _ w.elem _ t act hp ht
  have hdest := dest_asked asked _ w.elem _ t act hact ht h.dest
  generalize act.pushes = p at ht hhanded hpushes hdest ⊢
  have hmap := mapped_seenFrom_same (base p) size off (off + g.bytes) w.ring.mem (w.own p) hin
  have hinv' : RingInv g off (w.ring.users.world
      (seenFrom (base p) (mapped (base p) size w.ring.mem (w.own p)))) R :=
    ringInv_congr g off w.ring.users w.ring.mem _ R hinv hmap
  -- The step, at no address but that in the shared memory.
  have hrelative : ringAct off (w.ring.users.world
      (seenFrom (base p) (mapped (base p) size w.ring.mem (w.own p)))) act.thread
        = some (t.users.world (seenFrom (base p) t.mem)) := by
    have hseen := ringAct_seenFrom (base p) off (w.seen size (base p) p) act.thread
    rw [ht] at hseen
    exact hseen.symm
  have hframe := ringAct_frame g off _ _ act.thread R hinv' hrelative
  have hwidth := copiedOut_width g off w.elem _ _ act.thread R hinv' hrelative
  have hapart := copiedOut_apart g off w.elem (base false) size _ _ act.thread R t.mem hinv'
    hrelative (fun hcopy => hasked _ (h.dest hcopy))
  -- The threads have the same bytes in the ring.
  rcases ringAct_local g off (off + g.bytes) w.ring.users _ s.mem _ act.thread R
    hinv' (sameOn_trans _ _ _ _ _ (sameOn_symm _ _ _ _ hmap) h.same) (Nat.le_refl _) hrelative with
    ⟨m, hm, hafter⟩
  have hs : s = w.ring.users.world s.mem := by
    rw [← h.users]
    rfl
  refine ⟨t.users.world m, hs ▸ hm, ?_⟩
  refine after_follows g size base off start asked hin w s _ t p _ _ h
    (ringAct_inv g off _ _ act.thread R hinv' hrelative) hframe
    (ringAct_own g size off (base p) hin w.ring.mem (w.own p) _ t act.thread hframe rfl ht) ?_
    hpushes hhanded hdest (fun c hc => ?_) rfl hafter
  · -- What the step copies out, it does not copy to the shared memory.
    cases p with
    | true =>
        rw [show copiedOut w.elem w.ring.reader t.reader = [] from hpushes rfl]
        exact sameOn_refl _ _ _
    | false => exact hapart
  · rcases hwidth c hc with ⟨hcopy, haddr, _⟩
    exact haddr ▸ h.dest hcopy

/-- Setting up stores to nothing in the segment but the header. -/
theorem ringProcs_shared (b : Nat) (shared creator : Mem) (own : Bool → Mem) :
    SameOutside off (off + g.bytes) shared
      (ringProcs size b off g.cap g.elemSize shared creator own).ring.mem := by
  intro i hi
  have hhdr := g.hdr_le
  simp only [ringProcs, ringThreads, written]
  split
  · rename_i hlt
    rw [ringSetup_seenFrom, ringSetup_frame off g.cap g.elemSize _ i (by omega), seenFrom, mapped,
      if_pos (by omega), Nat.add_sub_cancel_left]
  · rfl

/-- What is set up in the segment is what threads set up. -/
theorem ringProcs_follow (b : Nat) (hin : off + g.bytes ≤ size) (shared creator : Mem)
    (own : Bool → Mem) :
    ProcsFollow g size base off (ringProcs size b off g.cap g.elemSize shared creator own) asked
      (ringProcs size b off g.cap g.elemSize shared creator own)
      (ringThreads (ringSetup shared off g.cap g.elemSize)) := by
  -- ring_setup runs through the mapping of its creator and is local to the block of the ring.
  have hmap := mapped_seenFrom_same b size off (off + g.bytes) shared creator hin
  have hwritten := written_seenFrom_same b size off (off + g.bytes) shared
    (ringSetup (mapped b size shared creator) (b + off) g.cap g.elemSize) hin
  rw [ringSetup_seenFrom] at hwritten
  have hinv := ringInv_congr g off RingUsers.fresh _ _ 0 (ringInv_start g off _) hwritten
  have hsame := sameOn_trans _ _ _ _ _ (sameOn_symm _ _ _ _ hwritten)
    (ringSetup_local off g.cap g.elemSize _ _ _ _ (sameOn_symm _ _ _ _ hmap))
  -- No process has run yet: nothing is copied and no address has been asked for.
  exact ⟨⟨0, hinv⟩, rfl, hsame, sameOutside_refl _ _ _, sameOutside_refl _ _ _,
    sameOutside_refl _ _ _, rfl, fun hcopy => absurd hcopy (by simp [ringProcs, ringThreads]),
    fun _ hc => absurd hc List.not_mem_nil⟩

end Procs

/-- Two processes that have a ring at addresses of their own, set up by a third
    one, do what two threads do. The ring holds the same bytes and is safe for
    them, and the rest of the segment has not been stored to, nor has anything
    outside of it in the process that pushes. The process that pops has there
    what it had, with the elements it was handed stored over it in order, where
    its calls have asked for them. -/
theorem ring_procs_as_threads (g : RingGeom) (size : Nat) (base : Bool → Nat) (b off : Nat)
    (hin : off + g.bytes ≤ size) (shared creator : Mem) (own : Bool → Mem)
    (acts : List RingProcAct)
    (hbeside : ∀ a, .pop (some a) ∈ acts → a + g.width ≤ base false ∨ base false + size ≤ a)
    (w : RingProcs)
    (hrun : steps (ringProcAct size base off)
      (ringProcs size b off g.cap g.elemSize shared creator own) acts = some w) :
    ∃ s, steps (ringAct off) (ringThreads (ringSetup shared off g.cap g.elemSize))
        (acts.map RingProcAct.thread) = some s ∧
      s.users = w.ring.users ∧
      SameOn off (off + g.bytes) w.ring.mem s.mem ∧
      QueueSafe g off w.ring ∧
      SameOutside off (off + g.bytes) shared w.ring.mem ∧
      SameOutside (base true) (base true + size) (own true) (w.own true) ∧
      SameOutside (base false) (base false + size) (storeAll (own false) w.copied) (w.own false) ∧
      w.copied.map Prod.snd = w.ring.handed ∧
      ∀ c ∈ w.copied, .pop (some c.1) ∈ acts := by
  -- Each step of a process is the step of its thread, so the run is one of the threads' relation;
  -- the invariant carried along is ProcsFollow.
  rcases steps_project_along (ringProcAct size base off) (ringAct off)
    (fun act => some act.thread) (fun act => act ∈ acts) (ProcsFollow g size base off
      (ringProcs size b off g.cap g.elemSize shared creator own) (fun a => .pop (some a) ∈ acts))
    (fun u s act act' u' hthread hmem h hstep => Option.some.inj hthread ▸
      ringProcAct_follows g size base off _ _ hin hbeside u u' s act (fun a ha => ha ▸ hmem) h
        hstep)
    (fun _ _ act _ hother _ _ _ => absurd hother (Option.some_ne_none act.thread)) acts _ w _
    (ringProcs_follow g size base off _ b hin shared creator own) (fun _ hmem => hmem) hrun with
    ⟨s, hs, hfollow⟩
  rw [List.filterMap_eq_map'] at hs
  rcases hfollow.inv with ⟨R, hR⟩
  exact ⟨s, hs, hfollow.users, hfollow.same, ringInv_safe g off _ R hR,
    -- ring_setup is the creator's store and the rest are the run's.
    sameOutside_trans _ _ _ _ _ (ringProcs_shared g size off b shared creator own)
      hfollow.shared, hfollow.pusher, hfollow.popper,
    hfollow.handed, hfollow.dests⟩

/-- A push by one process and a pop by the other, to the address 40. -/
def pushAndPop : List RingProcAct :=
  [.push (fun _ => 5), .writer, .writer, .pop (some 40), .reader, .reader]

/-- The segment is at 4096 in the process that pushes and at 100 in the other. -/
def ringBases : Bool → Nat := fun p => if p then 4096 else 100

theorem pushAndPop_beside :
    ∀ a, .pop (some a) ∈ pushAndPop → a + 1 ≤ ringBases false ∨ ringBases false + 64 ≤ a := by
  intro a ha
  simp only [pushAndPop, List.mem_cons, List.not_mem_nil, reduceCtorEq, RingProcAct.pop.injEq,
    Option.some.injEq, or_false, false_or] at ha
  rw [ha]
  decide

/-- A ring of two elements of a byte, 32 bytes into a segment of 64. -/
theorem ring_procs_as_threads_apart :
    ∃ w s, steps (ringProcAct 64 ringBases 32)
        (ringProcs 64 7 32 2 1 (fun _ => 9) (fun _ => 0) (fun _ _ => 1)) pushAndPop = some w ∧
      w.copied = [(40, [5])] ∧
      steps (ringAct 32) (ringThreads (ringSetup (fun _ => 9) 32 2 1))
        (pushAndPop.map RingProcAct.thread) = some s ∧
      s.users = w.ring.users := by
  -- The run is evaluated once for what it copies, and the theorem gives the threads' run beside it.
  have hcopied : (steps (ringProcAct 64 ringBases 32)
      (ringProcs 64 7 32 2 1 (fun _ => 9) (fun _ => 0) (fun _ _ => 1)) pushAndPop).map
        (fun w => w.copied) = some [(40, [5])] := by
    decide +kernel
  rcases Option.map_eq_some_iff.mp hcopied with ⟨w, hw, hpopped⟩
  rcases ring_procs_as_threads ⟨1, 2, by decide, by decide⟩ 64 ringBases 7 32
    (by decide) (fun _ => 9) (fun _ => 0) (fun _ _ => 1) pushAndPop pushAndPop_beside w hw with
    ⟨s, hs, husers, _⟩
  exact ⟨w, s, hw, hpopped, hs, husers⟩

end Aircmn
