import Aircmn.Core.RbufThreads
import Aircmn.Lib.Machine
import Aircmn.Theory.Rbuf.Plan

/-!
# One Writer and One Reader

A writer that asks `rbuf_wcap` before every write and a reader, on one buffer,
in any interleaving of their steps.

Either thread decides from a position of the other that may have moved on
since. Both decisions are sound because counters only grow: the space the
writer was promised can only become more, and so can the bytes the reader saw.
What needs care is which number a position holds. A position that stands for a
counter could be `0` or `cap + 1` for the same slot, and the two are not
interchangeable in the code. With writes that respect `rbuf_wcap` the choice
is never open. A position is zero until it first moves and never again: a copy
that ends at the end of the block parks the position there, and a copy that
turns around always has at least one byte left to put at the beginning.
`resting` is that choice, and the invariant says that both positions rest
where it says.

From there the argument is about counters. A snapshot of a position rests on
the counter of an earlier moment, and the two clauses `WriterOk` and
`ReaderOk` keep, for each program point, the inequality between that counter
and the current one that the rest of the call relies on.

## Main definitions

* `resting`: The position that stands for a counter.
* `pending`: Bytes copied and not yet announced.
* `WriterOk`, `ReaderOk`: What holds at a program point.
* `StreamInv`: The invariant.
* `StreamSafe`: What the callers rely on.

## Theorems

* `rbufWcap_steps`, `rbufWrite_steps`, `rbufRead_steps`: A call whose steps
  are not interrupted is the sequential call.
* `positions_resting`: Resting positions stand for their counters.
* `writePlan_resting`, `readPlan_resting`: A plan stores a resting position.
* `streamInv_copy`, `streamInv_announce`, `streamInv_take`: The steps that
  move bytes.
* `writerGo_inv`, `readerGo_inv`: A thread going on keeps the invariant.
* `rbufAct_inv`: So does every step.
* `streamInv_safe`: The invariant gives safety.
* `rbuf_spsc_safe`: Safety in every reachable state.
* `rbuf_spsc_parked`: A run that parks both positions.
-/

namespace Aircmn

open Bytes Circular

theorem rbufWcap_steps (s : RbufWorld) (hidle : s.writer = .idle) :
    (Machine.steps rbufAct s [.writer, .writer]).map (fun s' => (s'.buf, s'.writer))
      = some (s.buf, .granted (rbufWcap s.buf)) := by
  simp only [Machine.steps, rbufAct, rbufWriterGo, hidle, rbufWcap, Option.bind_some,
    Option.map_some]

theorem rbufWrite_steps (s : RbufWorld) (room : UInt64) (src : Mem) (n : UInt64)
    (hgranted : s.writer = .granted room) (hn : n ≤ room) :
    (Machine.steps rbufAct s [.write src n, .writer, .writer, .writer]).map
        (fun s' => (s'.buf, s'.writer, s'.returns))
      = some ((rbufWrite s.buf src n).2, .idle,
        s.returns ++ [(n, (rbufWrite s.buf src n).1)]) := by
  simp only [Machine.steps, rbufAct, rbufWriterGo, hgranted, if_pos hn, rbufWrite, rbufGetRpos,
    rbufGetWpos, Option.bind_some, Option.map_some]

theorem rbufRead_steps (s : RbufWorld) (dst : Mem) (n : UInt64) (hidle : s.reader = .idle) :
    (Machine.steps rbufAct s [.read dst n, .reader, .reader, .reader]).map
        (fun s' => (s'.buf, s'.reader, s'.delivered))
      = some ((rbufRead dst s.buf n).2.2, .idle, s.delivered ++
        slice (rbufRead dst s.buf n).2.1 0 (rbufRead dst s.buf n).1.toNat) := by
  simp only [Machine.steps, rbufAct, rbufReaderGo, hidle, rbufRead, rbufGetRpos, rbufGetWpos,
    Option.bind_some, Option.map_some]

/-- The position at which a counter rests in a block of `N`. -/
def resting (N x : Nat) : Nat := if x = 0 then 0 else (x - 1) % N + 1

theorem resting_le (N x : Nat) (h : 0 < N) : resting N x ≤ N := by
  unfold resting
  have hlt := Nat.mod_lt (x - 1) h
  split <;> omega

theorem resting_mod (N x : Nat) : resting N x % N = x % N := by
  unfold resting
  by_cases hx : x = 0
  · rw [if_pos hx, hx]
  · rw [if_neg hx, Nat.add_mod, Nat.mod_mod, ← Nat.add_mod, Nat.sub_add_cancel (by omega)]

theorem resting_eq_zero (N x : Nat) : resting N x = 0 ↔ x = 0 := by
  unfold resting
  by_cases hx : x = 0
  · rw [if_pos hx, hx]
  · rw [if_neg hx]
    exact ⟨fun h => absurd h (Nat.succ_ne_zero _), fun h => absurd h hx⟩

/-- A position in range that names the counter's slot, and is zero exactly if
    the counter is, is where the counter rests. -/
theorem eq_resting (N p x : Nat) (hp : p ≤ N) (hmod : p % N = x % N) (hzero : p = 0 ↔ x = 0) :
    p = resting N x := by
  unfold resting
  by_cases hx : x = 0
  · rw [if_pos hx, hzero.mpr hx]
  · -- Away from zero a position is one more than the slot before it.
    have hpred : (p - 1) % N = (x - 1) % N := by
      have hsucc : (p - 1 + 1) % N = (x - 1 + 1) % N := by
        rw [Nat.sub_add_cancel (by omega), Nat.sub_add_cancel (by omega), hmod]
      exact Nat.ModEq.add_right_cancel' 1 hsucc
    rw [if_neg hx, ← hpred, Nat.mod_eq_of_lt (by omega)]
    omega

theorem positions_resting (cap r w : UInt32) (R W : Nat) (hcap : cap.toNat + 1 < 2 ^ 32)
    (hr : r.toNat = resting (cap.toNat + 1) R) (hw : w.toNat = resting (cap.toNat + 1) W)
    (hle : R ≤ W) (hroom : W < R + (cap.toNat + 1)) : Positions cap r w R W := by
  -- Every field but the last follows from where a position rests modulo cap + 1.
  refine ⟨hcap, ?_, ?_, ?_, ?_, hle, hroom, ?_⟩
  · rw [hr]
    exact resting_le _ _ (Nat.succ_pos _)
  · rw [hw]
    exact resting_le _ _ (Nat.succ_pos _)
  · rw [hr, resting_mod]
  · rw [hw, resting_mod]
  · -- Nothing has been read, so less than a turn has been written.
    rintro ⟨hzero, hend⟩
    rw [hr, resting_eq_zero] at hzero
    have hmod := resting_mod (cap.toNat + 1) W
    rw [← hw, hend, Nat.mod_self, Nat.mod_eq_of_lt (by omega)] at hmod
    have hwzero := (resting_eq_zero (cap.toNat + 1) W).mpr hmod.symm
    omega

/-- A write that asks for no more than there is room for stores all of it and
    leaves `wpos` resting. -/
theorem writePlan_resting (cap r w : UInt32) (n : UInt64) (R W : Nat)
    (hcap : cap.toNat + 1 < 2 ^ 32) (hr : r.toNat = resting (cap.toNat + 1) R)
    (hw : w.toNat = resting (cap.toNat + 1) W) (hle : R ≤ W)
    (hroom : W + n.toNat ≤ R + cap.toNat) :
    ∃ a b, Covers (cap.toNat + 1) w.toNat n.toNat a b (r.toNat ≤ w.toNat)
        (rbufWritePlan cap r w n) ∧
      WriteCopies w.toNat a b (rbufWritePlan cap r w n).copies ∧ a + b = n.toNat ∧
      (rbufWritePlan cap r w n).ret = n ∧
      (rbufWritePlan cap r w n).pos.toNat = resting (cap.toNat + 1) (W + n.toNat) := by
  have hpos := positions_resting cap r w R W hcap hr hw hle (by omega)
  have hwcap := positions_wcap cap r w R W hpos
  rcases positions_write cap r w n R W hpos (by omega) (fun _ => by omega) with
    ⟨a, b, hcov, hcopies, hsum, hnext⟩
  have hall : a + b = n.toNat := by omega
  rw [hall] at hnext
  refine ⟨a, b, hcov, hcopies, hall, UInt64.toNat_inj.mp (by rw [hcov.ret, hall]), ?_⟩
  refine eq_resting _ _ _ hnext.w_le hnext.w_mod ?_
  have hwzero := resting_eq_zero (cap.toNat + 1) W
  rw [← hw] at hwzero
  -- A write that turned had bytes left, so it did not stop at zero.
  rcases hcov.turn with ⟨hb, hstop⟩ | ⟨_, hlt, _, hstop⟩
  · omega
  · omega

/-- A read from a snapshot leaves `rpos` resting. -/
theorem readPlan_resting (cap r w : UInt32) (n : UInt64) (R W : Nat)
    (hcap : cap.toNat + 1 < 2 ^ 32) (hr : r.toNat = resting (cap.toNat + 1) R)
    (hw : w.toNat = resting (cap.toNat + 1) W) (hle : R ≤ W)
    (hroom : W < R + (cap.toNat + 1)) (hn : n.toNat < 2 ^ 32) :
    ∃ a b, Covers (cap.toNat + 1) r.toNat n.toNat a b (w.toNat < r.toNat)
        (rbufReadPlan cap r w n) ∧
      ReadCopies r.toNat a b (rbufReadPlan cap r w n).copies ∧ a + b ≤ W - R ∧
      (rbufReadPlan cap r w n).ret.toNat = a + b ∧
      (rbufReadPlan cap r w n).pos.toNat = resting (cap.toNat + 1) (R + (a + b)) := by
  have hpos := positions_resting cap r w R W hcap hr hw hle hroom
  -- The distance between the positions is what has been written and not read.
  have hdist := positions_distance cap r w R W hpos
  rcases positions_read cap r w n R W hpos hn with ⟨a, b, hcov, hcopies, hsum, hnext⟩
  refine ⟨a, b, hcov, hcopies, by omega, hcov.ret, ?_⟩
  -- What is read ends where the reader rests next.
  refine eq_resting _ _ _ hnext.r_le hnext.r_mod ?_
  -- rpos is 0 only at a whole turn, and the same for wpos.
  have hrzero := resting_eq_zero (cap.toNat + 1) R
  rw [← hr] at hrzero
  have hwzero := resting_eq_zero (cap.toNat + 1) W
  rw [← hw] at hwzero
  rcases hcov.turn with ⟨hb, hstop⟩ | ⟨hlt, hmore, hend, hstop⟩
  · omega
  · -- A read that turned finds `wpos` past the beginning: bytes were written.
    rw [if_pos hlt] at hdist
    omega

/-- Bytes the writer has copied and not yet announced. -/
def pending : RbufWriter → List UInt8
  | .copied src _ plan => slice src 0 plan.ret.toNat
  | _ => []

/-- What holds where the writer stands, with `R` bytes read and `W` written. -/
def WriterOk (cap R W : Nat) : RbufWriter → Prop
  | .idle => True
  | .wcapRpos r => ∃ R₀, R₀ ≤ R ∧ R₀ ≤ W ∧ W < R₀ + (cap + 1) ∧ r.toNat = resting (cap + 1) R₀
  | .granted room => W + room.toNat ≤ R + cap
  | .writeRpos _ n r =>
    ∃ R₀, R₀ ≤ R ∧ R₀ ≤ W ∧ W + n.toNat ≤ R₀ + cap ∧ r.toNat = resting (cap + 1) R₀
  | .writeBoth _ n r w =>
    ∃ R₀, R₀ ≤ R ∧ R₀ ≤ W ∧ W + n.toNat ≤ R₀ + cap ∧ r.toNat = resting (cap + 1) R₀ ∧
      w.toNat = resting (cap + 1) W
  | .copied _ n plan =>
    W + n.toNat ≤ R + cap ∧ plan.ret = n ∧ plan.pos.toNat = resting (cap + 1) (W + n.toNat)

/-- What holds where the reader stands, with `D` bytes delivered. -/
def ReaderOk (cap R W D : Nat) : RbufReader → Prop
  | .idle => D = R
  | .readRpos _ n r => D = R ∧ n.toNat < 2 ^ 32 ∧ r.toNat = resting (cap + 1) R
  | .readBoth _ n r w =>
    D = R ∧ n.toNat < 2 ^ 32 ∧ r.toNat = resting (cap + 1) R ∧
      ∃ W₀, R ≤ W₀ ∧ W₀ ≤ W ∧ w.toNat = resting (cap + 1) W₀
  | .copied plan => R ≤ D ∧ D ≤ W ∧ plan.pos.toNat = resting (cap + 1) D

/-- The invariant, with `R` bytes read: the reader has stored that much. -/
structure StreamInv (s : RbufWorld) (R : Nat) : Prop where
  cap_lt : s.buf.cap.toNat + 1 < 2 ^ 32
  rpos : s.buf.rpos.toNat = resting (s.buf.cap.toNat + 1) R
  wpos : s.buf.wpos.toNat = resting (s.buf.cap.toNat + 1) s.written.length
  le : R ≤ s.written.length
  carries : Carries (s.buf.cap.toNat + 1) s.buf.data (s.written ++ pending s.writer) R
  writer : WriterOk s.buf.cap.toNat R s.written.length s.writer
  reader : ReaderOk s.buf.cap.toNat R s.written.length s.delivered.length s.reader
  order : s.delivered = s.written.take s.delivered.length
  exact : ∀ p ∈ s.returns, p.2 = p.1

theorem streamInv_room (s : RbufWorld) (R : Nat) (h : StreamInv s R) :
    s.written.length < R + (s.buf.cap.toNat + 1) := by
  have hroom := h.carries.room
  rw [List.length_append] at hroom
  omega

/-- The reader moving on takes nothing from the writer. -/
theorem writerOk_release (cap R R' W : Nat) (pc : RbufWriter) (hle : R ≤ R')
    (h : WriterOk cap R W pc) : WriterOk cap R' W pc := by
  -- Room can only have grown, so what was promised to the writer is still there.
  cases pc with
  | idle => trivial
  | wcapRpos r =>
      -- The reader's position the writer has read may be an older one.
      rcases h with ⟨R₀, hR, hrest⟩
      exact ⟨R₀, by omega, hrest⟩
  | granted room =>
      simp only [WriterOk] at h ⊢
      omega
  | writeRpos src n r =>
      rcases h with ⟨R₀, hR, hrest⟩
      exact ⟨R₀, by omega, hrest⟩
  | writeBoth src n r w =>
      rcases h with ⟨R₀, hR, hrest⟩
      exact ⟨R₀, by omega, hrest⟩
  | copied src n plan =>
      rcases h with ⟨hroom, hrest⟩
      exact ⟨by omega, hrest⟩

/-- The writer announcing more takes nothing from the reader. -/
theorem readerOk_publish (cap R W W' D : Nat) (pc : RbufReader) (hle : W ≤ W')
    (h : ReaderOk cap R W D pc) : ReaderOk cap R W' D pc := by
  cases pc with
  | idle => exact h
  | readRpos dst n r => exact h
  | readBoth dst n r w =>
      rcases h with ⟨hD, hn, hr, W₀, hR, hW, hw⟩
      exact ⟨hD, hn, hr, W₀, hR, by omega, hw⟩
  | copied plan =>
      rcases h with ⟨hR, hW, hp⟩
      exact ⟨hR, by omega, hp⟩

/-- A writer step that only moves its program point. -/
theorem streamInv_writer (s : RbufWorld) (R : Nat) (pc : RbufWriter) (h : StreamInv s R)
    (hpend : pending s.writer = []) (hpend' : pending pc = [])
    (hok : WriterOk s.buf.cap.toNat R s.written.length pc) :
    StreamInv { s with writer := pc } R := by
  have hcarries := h.carries
  rw [hpend] at hcarries
  exact ⟨h.cap_lt, h.rpos, h.wpos, h.le, by rw [hpend']; exact hcarries, hok, h.reader, h.order,
    h.exact⟩

/-- The copies put the new bytes after the last live one. -/
theorem streamInv_copy (s : RbufWorld) (R : Nat) (src : Mem) (n : UInt64) (r w : UInt32)
    (h : StreamInv s R) (hpc : s.writer = .writeBoth src n r w) :
    StreamInv { s with
      buf := { s.buf with
        data := runCopies s.buf.data src (rbufWritePlan s.buf.cap r w n).copies }
      writer := .copied src n (rbufWritePlan s.buf.cap r w n) } R := by
  have hok := h.writer
  have hcarries := h.carries
  rw [hpc] at hok hcarries
  rcases hok with ⟨R₀, hR, hRW, hroom₀, hr, hw⟩
  rcases writePlan_resting _ r w n R₀ _ h.cap_lt hr hw hRW hroom₀ with
    ⟨a, b, hcov, hcopies, hsum, hret, hpos⟩
  have hturn := covers_split _ _ _ a b _ _ hcov
  simp only [pending, List.append_nil] at hcarries
  -- What fits with `R₀` bytes read fits with `R`.
  have hfit : s.written.length + n.toNat ≤ R + s.buf.cap.toNat := by omega
  have hfree : s.written.length + (a + b) < R + (s.buf.cap.toNat + 1) := by omega
  refine ⟨h.cap_lt, h.rpos, h.wpos, h.le, ?_, ⟨hfit, hret, hpos⟩, h.reader, h.order, h.exact⟩
  simp only [pending]
  rw [runCopies_write _ _ _ _ _ _ hcopies, hret, ← hsum]
  exact carries_wrapIn _ _ _ _ _ _ _ _ hcarries (by rw [hw, resting_mod]) hcov.fits hturn hfree

/-- Storing `wpos` announces the pending bytes, and `wpos` rests after them. -/
theorem streamInv_announce (s : RbufWorld) (R : Nat) (src : Mem) (n : UInt64) (plan : Plan)
    (h : StreamInv s R) (hpc : s.writer = .copied src n plan) :
    StreamInv { s with
      buf := rbufSetWpos s.buf plan.pos
      writer := .idle
      returns := s.returns ++ [(n, plan.ret)]
      written := s.written ++ slice src 0 plan.ret.toNat } R := by
  -- The writer has finished its copies and its positions tell what it has written.
  have hok := h.writer
  have hcarries := h.carries
  rw [hpc] at hok hcarries
  rcases hok with ⟨hfit, hret, hpos⟩
  have hle := h.le
  -- The stream grows by the bytes of this call.
  have hlen : (s.written ++ slice src 0 plan.ret.toNat).length
      = s.written.length + n.toNat := by
    rw [List.length_append, slice_length, hret]
  have hord : s.delivered.length ≤ s.written.length := by
    rw [h.order]
    exact List.length_take_le' _ _
  -- Positions and order are those of the longer stream; the reader's side is only published to.
  refine ⟨h.cap_lt, h.rpos, ?_, ?_, ?_, trivial, ?_, ?_, ?_⟩
  · rw [hlen]
    exact hpos
  · rw [hlen]
    omega
  · simp only [pending, List.append_nil]
    exact hcarries
  · exact readerOk_publish _ _ _ _ _ _ (by rw [hlen]; omega) h.reader
  -- The bytes that are read were written before, so the order does not depend on the new ones.
  · calc s.delivered = s.written.take s.delivered.length := h.order
      _ = (s.written ++ slice src 0 plan.ret.toNat).take s.delivered.length :=
        (List.take_append_of_le_length hord).symm
  · intro p hp
    rcases List.mem_append.mp hp with hold | hnew
    · exact h.exact p hold
    · rw [List.mem_singleton.mp hnew]
      exact hret

theorem writerGo_inv (s s' : RbufWorld) (R : Nat) (h : StreamInv s R)
    (hstep : rbufWriterGo s = some s') : StreamInv s' R := by
  have hroom := streamInv_room s R h
  have hle := h.le
  have hw := h.writer
  unfold rbufWriterGo at hstep
  cases hpc : s.writer with
  | idle =>
      rw [hpc] at hstep
      simp only [Option.some.injEq] at hstep
      rw [← hstep]
      exact streamInv_writer s R _ h (by rw [hpc]; rfl) rfl ⟨R, by omega, hle, hroom, h.rpos⟩
  | wcapRpos r =>
      rw [hpc] at hstep hw
      simp only [Option.some.injEq] at hstep
      rcases hw with ⟨R₀, hR, hRW, hroom₀, hr⟩
      rw [← hstep]
      refine streamInv_writer s R _ h (by rw [hpc]; rfl) rfl ?_
      -- The room is worked out from the snapshot, and there is more by now.
      have hpos := positions_resting _ _ _ R₀ _ h.cap_lt hr h.wpos hRW hroom₀
      have hwcap := positions_wcap _ _ _ _ _ hpos
      simp only [WriterOk, rbufGetWpos]
      omega
  | granted room =>
      rw [hpc] at hstep
      simp only [reduceCtorEq] at hstep
  | writeRpos src n r =>
      rw [hpc] at hstep hw
      simp only [Option.some.injEq] at hstep
      rcases hw with ⟨R₀, hR, hRW, hroom₀, hr⟩
      rw [← hstep]
      exact streamInv_writer s R _ h (by rw [hpc]; rfl) rfl ⟨R₀, hR, hRW, hroom₀, hr, h.wpos⟩
  | writeBoth src n r w =>
      rw [hpc] at hstep
      simp only [Option.some.injEq] at hstep
      rw [← hstep]
      exact streamInv_copy s R src n r w h hpc
  | copied src n plan =>
      rw [hpc] at hstep
      simp only [Option.some.injEq] at hstep
      rw [← hstep]
      exact streamInv_announce s R src n plan h hpc

/-- The bytes a read copies are the next announced ones, not pending ones. -/
theorem streamInv_take (s : RbufWorld) (R : Nat) (dst : Mem) (n : UInt64) (r w : UInt32)
    (h : StreamInv s R) (hpc : s.reader = .readBoth dst n r w) :
    StreamInv { s with
      reader := .copied (rbufReadPlan s.buf.cap r w n)
      delivered := s.delivered ++
        slice (runCopies dst s.buf.data (rbufReadPlan s.buf.cap r w n).copies) 0
          (rbufReadPlan s.buf.cap r w n).ret.toNat } R := by
  -- Between the two positions lie only bytes that the writer has written and not overwritten.
  have hroom := streamInv_room s R h
  have hok := h.reader
  -- The position of the writer that the reader has read may be an older one, W₀.
  rw [hpc] at hok
  rcases hok with ⟨hD, hn, hr, W₀, hRW, hWW, hw⟩
  rcases readPlan_resting _ r w n R W₀ h.cap_lt hr hw hRW (by omega) hn with
    ⟨a, b, hcov, hcopies, hsum, hret, hpos⟩
  have hturn := covers_split _ _ _ a b _ _ hcov
  -- The copies deliver the bytes of the stream from R on, a + b of them.
  have hbytes : slice (runCopies dst s.buf.data (rbufReadPlan s.buf.cap r w n).copies) 0
      (rbufReadPlan s.buf.cap r w n).ret.toNat = (s.written.drop R).take (a + b) := by
    rw [runCopies_read _ _ _ _ _ _ hcopies, hret,
      carries_wrapOut _ _ _ _ _ _ _ _ h.carries (by rw [hr, resting_mod]) hcov.fits hturn
        (by rw [List.length_append]; omega),
      List.drop_append_of_le_length h.le, List.take_append_of_le_length]
    rw [List.length_drop]
    omega
  -- With the bytes read before they are the stream up to R + a + b.
  have hdel : s.delivered ++ (s.written.drop R).take (a + b)
      = s.written.take (R + (a + b)) := by
    conv_lhs => rw [h.order, hD]
    exact List.take_add.symm
  have hlen : (s.written.take (R + (a + b))).length = R + (a + b) :=
    List.length_take_of_le (by omega)
  -- Only the reader's own fields have changed.
  refine ⟨h.cap_lt, h.rpos, h.wpos, h.le, h.carries, h.writer, ?_, ?_, h.exact⟩
  · simp only [ReaderOk]
    rw [hbytes, hdel, hlen]
    exact ⟨by omega, by omega, hpos⟩
  · simp only []
    rw [hbytes, hdel, hlen]

theorem readerGo_inv (s s' : RbufWorld) (R : Nat) (h : StreamInv s R)
    (hstep : rbufReaderGo s = some s') : ∃ R', StreamInv s' R' := by
  have hle := h.le
  have hr := h.reader
  unfold rbufReaderGo at hstep
  cases hpc : s.reader with
  | idle =>
      rw [hpc] at hstep
      simp only [reduceCtorEq] at hstep
  | readRpos dst n r =>
      rw [hpc] at hstep hr
      simp only [Option.some.injEq] at hstep
      rcases hr with ⟨hD, hn, hr⟩
      rw [← hstep]
      exact ⟨R, h.cap_lt, h.rpos, h.wpos, hle, h.carries, h.writer,
        ⟨hD, hn, hr, _, hle, Nat.le_refl _, h.wpos⟩, h.order, h.exact⟩
  | readBoth dst n r w =>
      rw [hpc] at hstep
      simp only [Option.some.injEq] at hstep
      rw [← hstep]
      exact ⟨R, streamInv_take s R dst n r w h hpc⟩
  | copied plan =>
      rw [hpc] at hstep hr
      simp only [Option.some.injEq] at hstep
      rcases hr with ⟨hRD, hDW, hpos⟩
      -- Storing `rpos` lets go of the bytes delivered.
      have hlen : s.delivered.length ≤ (s.written ++ pending s.writer).length := by
        rw [List.length_append]
        omega
      rw [← hstep]
      exact ⟨s.delivered.length, h.cap_lt, hpos, h.wpos, hDW,
        carries_release _ _ _ _ _ h.carries hRD hlen, writerOk_release _ _ _ _ _ hRD h.writer,
        rfl, h.order, h.exact⟩

/-- A read asks for fewer than `2 ^ 32` bytes. -/
def RbufAct.Small : RbufAct → Prop
  | .read _ n => n.toNat < 2 ^ 32
  | _ => True

instance : DecidablePred RbufAct.Small
  | .read _ n => inferInstanceAs (Decidable (n.toNat < 2 ^ 32))
  | .write _ _ | .writer | .reader => isTrue trivial

theorem rbufAct_inv (s s' : RbufWorld) (act : RbufAct) (R : Nat) (h : StreamInv s R)
    (hsmall : act.Small) (hstep : rbufAct s act = some s') : ∃ R', StreamInv s' R' := by
  cases act with
  | writer => exact ⟨R, writerGo_inv s s' R h hstep⟩
  | reader => exact readerGo_inv s s' R h hstep
  | write src n =>
      simp only [rbufAct] at hstep
      cases hpc : s.writer with
      | granted room =>
          rw [hpc] at hstep
          simp only [Option.ite_none_right_eq_some, Option.some.injEq] at hstep
          rcases hstep with ⟨hn, hstep⟩
          -- The grant still holds, `rpos` having only moved on since.
          have hroom := h.writer
          rw [hpc] at hroom
          simp only [WriterOk] at hroom
          rw [UInt64.le_iff_toNat_le] at hn
          rw [← hstep]
          exact ⟨R, streamInv_writer s R _ h (by rw [hpc]; rfl) rfl
            ⟨R, Nat.le_refl _, h.le, by omega, h.rpos⟩⟩
      | _ =>
          rw [hpc] at hstep
          simp only [reduceCtorEq] at hstep
  | read dst n =>
      simp only [rbufAct] at hstep
      cases hpc : s.reader with
      | idle =>
          rw [hpc] at hstep
          simp only [Option.some.injEq] at hstep
          have hD := h.reader
          rw [hpc] at hD
          rw [← hstep]
          exact ⟨R, h.cap_lt, h.rpos, h.wpos, h.le, h.carries, h.writer, ⟨hD, hsmall, h.rpos⟩,
            h.order, h.exact⟩
      | _ =>
          rw [hpc] at hstep
          simp only [reduceCtorEq] at hstep

/-- What the callers rely on. An unread byte is one of the `rbuf_rcap` from
    `rpos` on, wrapping after index `cap`. -/
structure StreamSafe (s : RbufWorld) : Prop where
  /-- Every write stores exactly the bytes it was asked to. -/
  exact : ∀ p ∈ s.returns, p.2 = p.1
  /-- What the reads have delivered is a prefix of what was written. -/
  ordered : s.delivered <+: s.written
  rpos_le : s.buf.rpos.toNat ≤ s.buf.cap.toNat + 1
  wpos_le : s.buf.wpos.toNat ≤ s.buf.cap.toNat + 1
  /-- A write about to copy stays in the block and off every unread byte. -/
  writes : ∀ src n r w, s.writer = .writeBoth src n r w →
    ∀ c ∈ (rbufWritePlan s.buf.cap r w n).copies, c.dst + c.len ≤ s.buf.cap.toNat + 1 ∧
      ∀ i, i < (rbufRcap s.buf).toNat →
        ¬ (c.dst ≤ (s.buf.rpos.toNat + i) % (s.buf.cap.toNat + 1) ∧
          (s.buf.rpos.toNat + i) % (s.buf.cap.toNat + 1) < c.dst + c.len)
  /-- A read about to copy stays in the block. -/
  reads : ∀ dst n r w, s.reader = .readBoth dst n r w →
    ∀ c ∈ (rbufReadPlan s.buf.cap r w n).copies, c.src + c.len ≤ s.buf.cap.toNat + 1

theorem streamInv_safe (s : RbufWorld) (R : Nat) (h : StreamInv s R) : StreamSafe s := by
  have hroom := streamInv_room s R h
  have hpos := positions_resting _ _ _ _ _ h.cap_lt h.rpos h.wpos h.le hroom
  refine ⟨h.exact, ?_, hpos.r_le, hpos.w_le, ?_, ?_⟩
  · rw [h.order]
    exact List.take_prefix _ _
  · intro src n r w hpc c hc
    have hw := h.writer
    rw [hpc] at hw
    rcases hw with ⟨R₀, hR, hRW, hroom₀, hr, hwr⟩
    rcases writePlan_resting _ r w n R₀ _ h.cap_lt hr hwr hRW hroom₀ with
      ⟨a, b, hcov, hcopies, hsum, _, _⟩
    rcases writeCopies_slot _ _ _ _ _ _ _ hcov (by omega) _ hcopies c hc with ⟨hin, hslots⟩
    refine ⟨hin, fun i hi hclash => ?_⟩
    have hrcap : (rbufRcap s.buf).toNat = s.written.length - R :=
      positions_rcap _ _ _ _ _ hpos
    -- A slot being filled and an unread one stand for counters within a turn.
    rcases hslots _ hclash.1 hclash.2 with ⟨k, hk, hslot⟩
    rw [Nat.add_mod, hpos.r_mod, ← Nat.add_mod, Nat.add_mod w.toNat, hwr, resting_mod,
      ← Nat.add_mod] at hslot
    have hsame := mod_inj _ R _ _ (by omega) (by omega) (by omega) (by omega) hslot
    omega
  · intro dst n r w hpc c hc
    have hrd := h.reader
    rw [hpc] at hrd
    rcases hrd with ⟨_, hn, hr, W₀, hRW, hWW, hw⟩
    rcases readPlan_resting _ r w n R W₀ h.cap_lt hr hw hRW (by omega) hn with
      ⟨a, b, hcov, hcopies, hsum, _, _⟩
    exact readCopies_slot _ _ _ _ _ _ _ hcov (by omega) _ hcopies c hc

theorem streamInv_start (data : Mem) (cap : UInt32) (buf : Rbuf)
    (hcap : cap.toNat + 1 < 2 ^ 32) (hb : rbufCreate (some data) cap = some buf) :
    StreamInv (rbufThreads buf) 0 := by
  simp only [rbufCreate, Option.map_some, Option.some.injEq] at hb
  rw [← hb]
  exact ⟨hcap, rfl, rfl, Nat.le_refl _, carries_nil _ _ (Nat.succ_pos _), trivial, rfl, rfl,
    fun p hp => absurd hp List.not_mem_nil⟩

/-- Under every interleaving of a writer that respects `rbuf_wcap` and a
    reader, every reachable state is safe. -/
theorem rbuf_spsc_safe (data : Mem) (cap : UInt32) (buf : Rbuf) (acts : List RbufAct)
    (s : RbufWorld) (hcap : cap.toNat < 2 ^ 32 - 1)
    (hb : rbufCreate (some data) cap = some buf) (hsmall : ∀ act ∈ acts, act.Small)
    (hrun : Machine.steps rbufAct (rbufThreads buf) acts = some s) : StreamSafe s := by
  have hstart : ∃ R, StreamInv (rbufThreads buf) R :=
    ⟨0, streamInv_start data cap buf (by omega) hb⟩
  rcases Machine.steps_invariant_along rbufAct RbufAct.Small (fun s => ∃ R, StreamInv s R)
    (fun t act t' ht hact hstep => ht.elim (fun R hR => rbufAct_inv t t' act R hR hact hstep))
    acts _ s hstart hsmall hrun with ⟨R, h⟩
  exact streamInv_safe s R h

/-- Two rounds on a buffer of two bytes: the first moves one byte, the second
    two, with the threads taking turns. -/
def twoRounds : List RbufAct :=
  [.writer, .writer, .write (fun _ => 5) 1, .writer, .writer, .writer,
    .read (fun _ => 0) 1, .reader, .reader, .reader,
    .writer, .writer, .write (fun i => UInt8.ofNat i) 2, .writer, .writer, .read (fun _ => 0) 9,
    .writer, .reader, .reader, .reader]

/-- The second round ends at the end of the block and parks both positions. -/
theorem rbuf_spsc_parked :
    ∃ s, Machine.steps rbufAct
        (rbufThreads { rpos := 0, wpos := 0, cap := 2, data := fun _ => 0 }) twoRounds = some s ∧
      StreamSafe s ∧ s.buf.rpos = 3 ∧ s.buf.wpos = 3 ∧ s.delivered = [5, 0, 1] := by
  refine ⟨_, rfl, rbuf_spsc_safe (fun _ => 0) 2 _ twoRounds _ ?_ rfl ?_ rfl, ?_, ?_, ?_⟩
  all_goals decide +kernel

end Aircmn
