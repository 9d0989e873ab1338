import Aircmn.Theory.Rbuf.Fifo

/-!
# Reading the Byte Ring Buffer

A read taken by itself: what it delivers and what it leaves, from any pair of
positions in the block or just past it. Where the positions come from does not
matter, so the pair that no sequence of writes should produce is included,
`rpos` at zero and `wpos` past the end, where all the bytes of the block are
readable.

A read that meets its request exactly at the end of the block leaves `rpos`
there, and the bytes it leaves are the same as if it had gone back to zero.
The bytes that can be read are a window of the block, and a window depends on
its position up to whole turns, so this needs no attention after
`rbufReadPlan_takes`.

The lemmas are for every capacity and ask of a request that `_min` does not
cut it below what can be read. A request below `2 ^ 32` is never cut.

## Main definitions

* `InBlock`: The positions are in the block or just past it.
* `unread`: The bytes between the positions.
* `Takes`: A plan takes a number of bytes.
* `ReadExact`: What a read is to do.
* `readOps`: Reading in pieces.

## Theorems

* `unread_eq_held`: The bytes between the positions are a window.
* `rbufReadPlan_takes`: How many bytes the branches of a read take.
* `rbufRead_takes`: The bytes delivered and the bytes left.
* `readOps_run`: Reading in pieces.
* `rbuf_read_exact`: A read is exact, and so is reading in pieces.
* `rbuf_read_parked`: Two reads around the end of a block.
-/

namespace Aircmn

open Bytes Circular

/-- Each position is in the block or just past its end. -/
structure InBlock (buf : Rbuf) : Prop where
  r_le : buf.rpos.toNat ≤ buf.cap.toNat + 1
  w_le : buf.wpos.toNat ≤ buf.cap.toNat + 1

/-- The bytes from `rpos` to `wpos`, or to the end of the block and from its
    beginning to `wpos`. -/
def unread (buf : Rbuf) : List UInt8 :=
  if buf.rpos ≤ buf.wpos then
    slice buf.data buf.rpos.toNat (buf.wpos.toNat - buf.rpos.toNat)
  else
    slice buf.data buf.rpos.toNat (buf.cap.toNat + 1 - buf.rpos.toNat)
      ++ slice buf.data 0 buf.wpos.toNat

theorem unread_eq_held (buf : Rbuf) (h : InBlock buf) : unread buf = held buf := by
  have hr := h.r_le
  have hw := h.w_le
  have hrcap : (rbufRcap buf).toNat = _ := rcapOf_toNat buf.cap buf.rpos buf.wpos hr
  -- Two shapes of the unread bytes: one run, or a run to the end of the block and one from its
  -- start.
  rw [held, hrcap, unread]
  by_cases hrw : buf.rpos.toNat ≤ buf.wpos.toNat
  · rw [if_pos (UInt32.le_iff_toNat_le.mpr hrw), if_neg (by omega)]
    exact slice_eq_window _ _ _ _ (by omega)
  · -- The window ends its first part at the end of the block.
    -- The two runs together are the window, which goes around at cap + 1.
    have hlen : buf.cap.toNat + 1 + buf.wpos.toNat - buf.rpos.toNat
        = buf.cap.toNat + 1 - buf.rpos.toNat + buf.wpos.toNat := by omega
    have hend : buf.rpos.toNat + (buf.cap.toNat + 1 - buf.rpos.toNat) = buf.cap.toNat + 1 := by
      omega
    rw [if_neg (fun hc => hrw (UInt32.le_iff_toNat_le.mp hc)), if_pos (by omega), hlen,
      window_add, slice_eq_window (buf.cap.toNat + 1) _ _ _ (by omega),
      slice_eq_window (buf.cap.toNat + 1) _ 0 _ (by omega), hend]
    exact congrArg _ (window_mod _ _ _ _ _ (by simp))

theorem unread_length (buf : Rbuf) (h : InBlock buf) :
    (unread buf).length = (rbufRcap buf).toNat := by
  rw [unread_eq_held buf h, held, window_length]

/-- The plan takes the first `k` of the bytes between `r` and `w`. -/
structure Takes (cap r w : UInt32) (k : Nat) (plan : Plan) : Prop where
  ret : plan.ret.toNat = k
  copies : ∃ a b, a + b = k ∧ ReadCopies r.toNat a b plan.copies ∧
    r.toNat + a ≤ cap.toNat + 1 ∧ (b = 0 ∨ r.toNat + a = cap.toNat + 1)
  pos_le : plan.pos.toNat ≤ cap.toNat + 1
  pos_mod : plan.pos.toNat % (cap.toNat + 1) = (r.toNat + k) % (cap.toNat + 1)
  left : (rcapOf cap r w).toNat = k + (rcapOf cap plan.pos w).toNat

theorem rbufReadPlan_takes (cap r w : UInt32) (n : UInt64) (hr : r.toNat ≤ cap.toNat + 1)
    (hw : w.toNat ≤ cap.toNat + 1)
    (hn : n.toNat ≤ (rcapOf cap r w).toNat ∨ (rcapOf cap r w).toNat ≤ n.toNat % 2 ^ 32) :
    Takes cap r w (min n.toNat (rcapOf cap r w).toNat) (rbufReadPlan cap r w n) := by
  have hcap := cap.toNat_lt
  have hwlt := w.toNat_lt
  have hrcap := rcapOf_toNat cap r w hr
  -- Three cases, as in rbuf_read: up to the end, around it, and one run before wpos.
  by_cases hwr : w.toNat < r.toNat
  · rw [if_pos hwr] at hrcap
    by_cases hend : r.toNat + n.toNat ≤ cap.toNat + 1
    · -- In the largest block the position past the end is zero again.
      have hplan := rbufReadPlan_toEnd cap r w n hwr hr hend
      have hpos : (rbufReadPlan cap r w n).pos.toNat ≤ cap.toNat + 1 := by
        rw [hplan.pos]
        omega
      -- hn rules out the sizes that the cut to 32 bits would shorten, so all n are taken.
      have hk : min n.toNat (rcapOf cap r w).toNat = n.toNat := by omega
      rw [hk]
      refine ⟨hplan.ret, ⟨n.toNat, 0, rfl, Or.inl ⟨hplan.copies, rfl⟩, hend, Or.inl rfl⟩, hpos,
        ?_, ?_⟩
      · rw [hplan.pos]
        by_cases hwrap : r.toNat + n.toNat = 2 ^ 32
        · rw [hwrap, show cap.toNat + 1 = 2 ^ 32 by omega]
          rfl
        · rw [Nat.mod_eq_of_lt (show r.toNat + n.toNat < 2 ^ 32 by omega)]
      · rw [hrcap, rcapOf_toNat cap _ w hpos, hplan.pos]
        split <;> omega
    -- The read turns around the end of the block, and the second copy starts at 0.
    · rcases rbufReadPlan_around cap r w n hwr hr (by omega) with ⟨a, b, ha, hb, hplan⟩
      have hk : min n.toNat (rcapOf cap r w).toNat = a + b := by omega
      have hpos : (rbufReadPlan cap r w n).pos.toNat ≤ cap.toNat + 1 := by
        rw [hplan.pos]
        omega
      rw [hk]
      refine ⟨hplan.ret, ⟨a, b, rfl, Or.inr hplan.copies, by omega, Or.inr (by omega)⟩, hpos,
        ?_, ?_⟩
      · rw [hplan.pos, ← Nat.add_assoc, show r.toNat + a = cap.toNat + 1 by omega,
          Nat.add_mod_left]
      · rw [hrcap, rcapOf_toNat cap _ w hpos, hplan.pos, if_neg (by omega)]
        omega
  · rw [if_neg hwr] at hrcap
    have hplan := rbufReadPlan_between cap r w n (by omega)
    have hk : min n.toNat (rcapOf cap r w).toNat
        = min (w.toNat - r.toNat) (n.toNat % 2 ^ 32) := by omega
    rw [hk]
    -- In one run the plan is a single copy, and only its length matters from here on.
    generalize min (w.toNat - r.toNat) (n.toNat % 2 ^ 32) = k at hplan hk
    have hpos : (rbufReadPlan cap r w n).pos.toNat ≤ cap.toNat + 1 := by
      rw [hplan.pos]
      omega
    refine ⟨hplan.ret, ⟨k, 0, rfl, Or.inl ⟨hplan.copies, rfl⟩, by omega, Or.inl rfl⟩, hpos,
      by rw [hplan.pos], ?_⟩
    rw [hrcap, rcapOf_toNat cap _ w hpos, hplan.pos, if_neg (by omega)]
    omega

/-- A call that takes `k` bytes delivers them, stores nothing else at the
    destination, and leaves the others. -/
theorem rbufRead_takes (dst : Mem) (buf : Rbuf) (n : UInt64) (k : Nat) (h : InBlock buf)
    (ht : Takes buf.cap buf.rpos buf.wpos k (rbufReadPlan buf.cap buf.rpos buf.wpos n)) :
    slice (rbufRead dst buf n).2.1 0 k = (unread buf).take k ∧
      SameOutside 0 k dst (rbufRead dst buf n).2.1 ∧
      unread (rbufRead dst buf n).2.2 = (unread buf).drop k ∧
      InBlock (rbufRead dst buf n).2.2 := by
  -- The buffer afterwards is well formed, so its unread bytes are a window again.
  have hin : InBlock (rbufRead dst buf n).2.2 := ⟨ht.pos_le, h.w_le⟩
  have hleft : (rbufRcap buf).toNat = k + (rbufRcap (rbufRead dst buf n).2.2).toNat := ht.left
  have hfew : (rbufRcap buf).toNat = _ := rcapOf_toNat buf.cap buf.rpos buf.wpos h.r_le
  have hw := h.w_le
  -- Never more than the whole block is read.
  have hk : k ≤ buf.cap.toNat + 1 := by
    split at hfew <;> omega
  rcases ht.copies with ⟨a, b, hab, hcopies, hfit, hturn⟩
  have hmoved : (rbufRead dst buf n).2.1 = wrapOut dst buf.data buf.rpos.toNat a b :=
    runCopies_read _ _ _ _ _ _ hcopies
  -- What is unread is cut in two: the bytes taken, and the window that is left.
  rw [unread_eq_held buf h, unread_eq_held _ hin, held, hleft, window_take, window_drop]
  -- The bytes are those the copies moved, and nothing behind the first k was stored to.
  refine ⟨?_, fun i hi => ?_, window_mod _ _ _ _ _ ht.pos_mod, hin⟩
  · rw [hmoved, ← hab]
    exact slice_wrapOut _ dst _ _ a b hfit hturn (by omega)
  · rw [hmoved, wrapOut, memcpy, memcpy, blit_outside _ _ _ _ _ (by omega),
      blit_outside _ _ _ _ _ (by omega)]

/-- A read of `n` bytes returns the smaller of `n` and the number of bytes that
    can be read, delivers that many of them, and leaves the rest. -/
structure ReadExact (dst : Mem) (buf : Rbuf) (n : UInt64) : Prop where
  rcap : (rbufRcap buf).toNat = (unread buf).length
  ret : (rbufRead dst buf n).1.toNat = min n.toNat (unread buf).length
  delivered : slice (rbufRead dst buf n).2.1 0 (rbufRead dst buf n).1.toNat
    = (unread buf).take n.toNat
  untouched : SameOutside 0 (rbufRead dst buf n).1.toNat dst (rbufRead dst buf n).2.1
  rest : unread (rbufRead dst buf n).2.2 = (unread buf).drop n.toNat
  wpos : (rbufRead dst buf n).2.2.wpos = buf.wpos
  cap : (rbufRead dst buf n).2.2.cap = buf.cap
  data : (rbufRead dst buf n).2.2.data = buf.data
  inBlock : InBlock (rbufRead dst buf n).2.2

/-- A read is exact when `_min` does not cut the request below what can be
    read. -/
theorem readExact_of_uncut (dst : Mem) (buf : Rbuf) (n : UInt64) (h : InBlock buf)
    (hn : n.toNat ≤ (rbufRcap buf).toNat ∨ (rbufRcap buf).toNat ≤ n.toNat % 2 ^ 32) :
    ReadExact dst buf n := by
  have hlen := unread_length buf h
  -- With enough bytes or a size that survives the cut, the plan takes exactly what was asked.
  have htakes := rbufReadPlan_takes buf.cap buf.rpos buf.wpos n h.r_le h.w_le hn
  rcases rbufRead_takes dst buf n _ h htakes with ⟨hslice, houtside, hrest, hin⟩
  have hret : (rbufRead dst buf n).1.toNat = min n.toNat (rbufRcap buf).toNat := htakes.ret
  refine ⟨hlen.symm, by rw [hret, hlen], ?_, by rwa [hret], ?_, rfl, rfl, rfl, hin⟩
  · rw [hret]
    refine hslice.trans ?_
    rw [List.take_eq_take_iff, hlen]
    exact Nat.min_eq_left (Nat.min_le_right _ _)
  -- Whether all of it is taken or the queue is emptied, what is left is what was not taken.
  · rw [hrest]
    by_cases hall : n.toNat ≤ (rbufRcap buf).toNat
    · exact congrArg (fun k => List.drop k _) (Nat.min_eq_left hall)
    · -- Nothing is left either way.
      have hmin : min n.toNat (rcapOf buf.cap buf.rpos buf.wpos).toNat = (unread buf).length := by
        rw [hlen]
        exact Nat.min_eq_right (Nat.le_of_not_le hall)
      rw [hmin, List.drop_length, List.drop_of_length_le (by omega)]

theorem readExact_of_lt (dst : Mem) (buf : Rbuf) (n : UInt64) (h : InBlock buf)
    (hn : n.toNat < 2 ^ 32) : ReadExact dst buf n :=
  readExact_of_uncut dst buf n h (by omega)

/-- Reads one after another, each with a destination and a size. -/
def readOps (pieces : List (Mem × UInt64)) : List RbufOp :=
  pieces.map (fun piece => .read piece.1 piece.2)

/-- The number of bytes that the pieces ask for. -/
def piecesSize (pieces : List (Mem × UInt64)) : Nat :=
  (pieces.map (fun piece => piece.2.toNat)).sum

/-- Reading in pieces delivers the bytes from the first on, and leaves the
    rest. -/
theorem readOps_run (pieces : List (Mem × UInt64)) : ∀ (s : Session), InBlock s.buf →
    (∀ piece ∈ pieces, piece.2.toNat < 2 ^ 32) →
    (Machine.run sessionStep s (readOps pieces)).1.delivered
        = s.delivered ++ (unread s.buf).take (piecesSize pieces) ∧
      unread (Machine.run sessionStep s (readOps pieces)).1.buf
        = (unread s.buf).drop (piecesSize pieces) := by
  induction pieces with
  | nil =>
      intro s _ _
      simp [readOps, piecesSize, Machine.run]
  | cons piece pieces ih =>
      intro s h hn
      have hread := readExact_of_lt piece.1 s.buf piece.2 h (hn piece List.mem_cons_self)
      rcases ih (sessionStep s (.read piece.1 piece.2)).1 hread.inBlock
        (fun p hp => hn p (List.mem_cons_of_mem piece hp)) with ⟨hdelivered, hrest⟩
      have hsize : piecesSize (piece :: pieces) = piece.2.toNat + piecesSize pieces := rfl
      -- The first piece delivers a prefix, and the others go on from there.
      have hfirst : (sessionStep s (.read piece.1 piece.2)).1.delivered
          = s.delivered ++ (unread s.buf).take piece.2.toNat :=
        congrArg (s.delivered ++ ·) hread.delivered
      have hnext : unread (sessionStep s (.read piece.1 piece.2)).1.buf
          = (unread s.buf).drop piece.2.toNat := hread.rest
      rw [hfirst, hnext, List.append_assoc, ← List.take_add] at hdelivered
      rw [hnext, List.drop_drop] at hrest
      rw [hsize]
      exact ⟨hdelivered, hrest⟩

/-- A read is exact from any positions in the block or just past it, and
    reading in pieces delivers and leaves the same bytes as one read that asks
    for as many, or as many as there are. -/
theorem rbuf_read_exact (buf : Rbuf) (h : InBlock buf) :
    (∀ (dst : Mem) (n : UInt64), n.toNat < 2 ^ 32 → ReadExact dst buf n) ∧
      ∀ (pieces : List (Mem × UInt64)) (dst : Mem) (n : UInt64), n.toNat < 2 ^ 32 →
        (∀ piece ∈ pieces, piece.2.toNat < 2 ^ 32) →
        min n.toNat (rbufRcap buf).toNat = min (piecesSize pieces) (rbufRcap buf).toNat →
        (Machine.run sessionStep (opened buf) (readOps pieces)).1.delivered
            = slice (rbufRead dst buf n).2.1 0 (rbufRead dst buf n).1.toNat ∧
          unread (Machine.run sessionStep (opened buf) (readOps pieces)).1.buf
            = unread (rbufRead dst buf n).2.2 := by
  refine ⟨fun dst n hn => readExact_of_lt dst buf n h hn, fun pieces dst n hn hpieces hsize => ?_⟩
  have hread := readExact_of_lt dst buf n h hn
  rcases readOps_run pieces (opened buf) h hpieces with ⟨hdelivered, hrest⟩
  have hlen := unread_length buf h
  -- Sizes that agree as far as there are bytes select the same ones.
  have htake : (unread buf).take (piecesSize pieces) = (unread buf).take n.toNat := by
    rw [List.take_eq_take_iff, hlen]
    exact hsize.symm
  have hdrop : (unread buf).drop (piecesSize pieces) = (unread buf).drop n.toNat := by
    have hsplit := (List.take_append_drop (piecesSize pieces) (unread buf)).trans
      (List.take_append_drop n.toNat (unread buf)).symm
    rw [htake] at hsplit
    exact List.append_cancel_left hsplit
  rw [hdelivered, hrest, hread.delivered, hread.rest, ← htake, ← hdrop]
  exact ⟨rfl, rfl⟩

/-- A block of four bytes with the last one and the first two unread: a read of
    one byte parks `rpos` past the end, and the next goes on at the beginning. -/
theorem rbuf_read_parked :
    (Machine.run sessionStep
      (opened { rpos := 3, wpos := 2, cap := 3, data := fun i => UInt8.ofNat i })
      (readOps [(fun _ => 9, 1), (fun _ => 9, 1)])).1.delivered = [3, 0] ∧
    ReadExact (fun _ => 9) { rpos := 3, wpos := 2, cap := 3, data := fun i => UInt8.ofNat i } 2 :=
  have h := rbuf_read_exact { rpos := 3, wpos := 2, cap := 3, data := fun i => UInt8.ofNat i }
    ⟨by decide, by decide⟩
  ⟨(h.2 [(fun _ => 9, 1), (fun _ => 9, 1)] (fun _ => 9) 2 (by decide) (by decide)
    (by decide)).1.trans (by decide), h.1 (fun _ => 9) 2 (by decide)⟩

end Aircmn
