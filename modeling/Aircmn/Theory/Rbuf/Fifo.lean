import Aircmn.Lib.Machine
import Aircmn.Theory.Rbuf.Plan

/-!
# The Byte Ring Buffer as a Queue

What a buffer means to a caller that uses it from one thread: bytes written
come out in order. A `Session` is a buffer together with everything its
callers have seen, the bytes accepted by the writes and the bytes delivered
by the reads, and `FifoLaw` is the law connecting the three.

The law holds as long as no write meets the defect described by
`rbufWritePlan_overfill`. Writing with `rpos` still zero, the call takes the
space before the end of the block for free although its last byte has to stay
unused, and turning around it takes `rpos - 1`, a number just below `2 ^ 32`,
for a capacity. A request that fits `rbuf_wcap` reaches neither. `Fitting` is
that condition, asked only of writes made at `rpos = 0`: any other write may
ask for more than there is room for, and is cut short as it should be.

The condition is exact. The first write of a run that breaks it leaves the
buffer claiming either more than `cap` bytes or fewer than were accepted.

## Main definitions

* `Session`: A buffer and what its callers have seen.
* `RbufOp`, `sessionStep`: The calls.
* `held`: The bytes in the buffer, in order.
* `FifoLaw`: The buffer is a queue of at most `cap` bytes.
* `Fitting`: A write at `rpos = 0` asks for no more than there is room for.
* `Tracks`: The invariant.

## Theorems

* `tracks_law`: The invariant gives the law.
* `tracks_write`, `tracks_read`: Calls keep the invariant.
* `rbufWritePlan_overfill`: What a write at `rpos = 0` does with too large a
  request.
* `overfill_breaks_law`: Such a write breaks the law.
* `rbuf_fifo_iff_fitting`: A run keeps the law exactly if its writes fit.
* `rbuf_fifo_mixed_run`: A run of all three kinds of request.
* `rbuf_overfill`: A two-byte write into a buffer of one.
-/

namespace Aircmn

open Bytes Circular

/-- A buffer, the bytes its writes have accepted, and the bytes its reads have
    delivered. -/
structure Session where
  buf : Rbuf
  accepted : List UInt8
  delivered : List UInt8

/-- A call, with the caller's memory and the size of the request. -/
inductive RbufOp where
  | write (src : Mem) (n : UInt64)
  | read (dst : Mem) (n : UInt64)

/-- How many bytes a call is for. -/
def RbufOp.size : RbufOp → UInt64
  | .write _ n => n
  | .read _ n => n

/-- Make a call, and record the bytes it moved: the first `ret` bytes of the
    source, or the bytes now at the destination. -/
def sessionStep (s : Session) : RbufOp → Session × UInt64
  | .write src n =>
    let r := rbufWrite s.buf src n
    ({ s with buf := r.2, accepted := s.accepted ++ slice src 0 r.1.toNat }, r.1)
  | .read dst n =>
    let r := rbufRead dst s.buf n
    ({ s with buf := r.2.2, delivered := s.delivered ++ slice r.2.1 0 r.1.toNat }, r.1)

/-- The state a new buffer starts from. -/
def opened (buf : Rbuf) : Session := { buf := buf, accepted := [], delivered := [] }

/-- The bytes in the buffer: `rbuf_rcap` of them, from `rpos` on, wrapping
    after index `cap`. -/
def held (buf : Rbuf) : List UInt8 :=
  window (buf.cap.toNat + 1) buf.data buf.rpos.toNat (rbufRcap buf).toNat

/-- The buffer is a queue of at most `cap` bytes. -/
def FifoLaw (s : Session) : Prop :=
  s.delivered ++ held s.buf = s.accepted ∧
    s.delivered.length + (rbufRcap s.buf).toNat = s.accepted.length ∧
    (held s.buf).length ≤ s.buf.cap.toNat ∧
    (rbufRcap s.buf).toNat + (rbufWcap s.buf).toNat = s.buf.cap.toNat

instance (s : Session) : Decidable (FifoLaw s) :=
  inferInstanceAs (Decidable (_ ∧ _ ∧ _ ∧ _))

/-- A write made at `rpos = 0` asks for no more than `rbuf_wcap`. -/
def Fitting (s : Session) : RbufOp → Prop
  | .write _ n => s.buf.rpos.toNat = 0 → n.toNat ≤ (rbufWcap s.buf).toNat
  | .read _ _ => True

/-- The positions stand for the numbers of bytes delivered and accepted, the
    bytes not yet delivered are in their slots, and those delivered were the
    first accepted. -/
structure Tracks (s : Session) : Prop where
  positions : Positions s.buf.cap s.buf.rpos s.buf.wpos s.delivered.length s.accepted.length
  carries : Carries (s.buf.cap.toNat + 1) s.buf.data s.accepted s.delivered.length
  order : s.delivered = s.accepted.take s.delivered.length

theorem tracks_opened (data : Mem) (cap : UInt32) (buf : Rbuf)
    (hcap : cap.toNat + 1 < 2 ^ 32) (hb : rbufCreate (some data) cap = some buf) :
    Tracks (opened buf) := by
  simp only [rbufCreate, Option.map_some, Option.some.injEq] at hb
  rw [← hb]
  refine ⟨⟨hcap, ?_, ?_, ?_, ?_, ?_, ?_, ?_⟩, carries_nil _ _ (by omega), rfl⟩
  all_goals simp only [opened, UInt32.toNat_zero, List.length_nil]
  all_goals omega

theorem tracks_law (s : Session) (h : Tracks s) : FifoLaw s := by
  have hrcap : (rbufRcap s.buf).toNat = s.accepted.length - s.delivered.length :=
    positions_rcap _ _ _ _ _ h.positions
  have hwcap : (rbufWcap s.buf).toNat
      = s.buf.cap.toNat - (s.accepted.length - s.delivered.length) :=
    positions_wcap _ _ _ _ _ h.positions
  have hle := h.positions.le
  have hroom := h.positions.room
  -- The bytes held are the live entries of the stream.
  have hheld : held s.buf = s.accepted.drop s.delivered.length :=
    carries_window_all _ _ _ _ _ _ h.carries h.positions.r_mod hrcap
  refine ⟨?_, by omega, ?_, by omega⟩
  · conv_lhs => rw [hheld, h.order]
    rw [List.length_take_of_le hle, List.take_append_drop]
  · rw [held, window_length]
    omega

/-- Taking more of the accepted bytes is delivering the next ones. -/
theorem take_append_next (log : List UInt8) (R k : Nat) :
    log.take R ++ (log.drop R).take k = log.take (R + k) :=
  (List.take_add).symm

theorem tracks_write (s : Session) (src : Mem) (n : UInt64) (h : Tracks s)
    (hn : n.toNat < 2 ^ 32) (hfit : Fitting s (.write src n)) :
    Tracks (sessionStep s (.write src n)).1 ∧
      (sessionStep s (.write src n)).2.toNat = min n.toNat (rbufWcap s.buf).toNat := by
  have hle := h.positions.le
  have hroom := h.positions.room
  have hwcap : (rbufWcap s.buf).toNat
      = s.buf.cap.toNat - (s.accepted.length - s.delivered.length) :=
    positions_wcap _ _ _ _ _ h.positions
  rcases positions_write _ _ _ n _ _ h.positions hn hfit with ⟨a, b, hcov, hcopies, hsum, hpos⟩
  have hturn := covers_split _ _ _ a b _ _ hcov
  have hret : (sessionStep s (.write src n)).2.toNat = a + b := hcov.ret
  -- The data and the record advance by the same `a + b` bytes.
  have hdata : (sessionStep s (.write src n)).1.buf.data
      = wrapIn s.buf.data s.buf.wpos.toNat src a b := runCopies_write _ _ _ _ _ _ hcopies
  have hacc : (sessionStep s (.write src n)).1.accepted = s.accepted ++ slice src 0 (a + b) := by
    rw [← hret]
    rfl
  have hlen : (sessionStep s (.write src n)).1.accepted.length = s.accepted.length + (a + b) := by
    rw [hacc, List.length_append, slice_length]
  refine ⟨⟨?_, ?_, ?_⟩, by rw [hret, hsum, hwcap]⟩
  · rw [hlen]
    exact hpos
  · rw [hdata, hacc]
    change Carries (s.buf.cap.toNat + 1) _ _ s.delivered.length
    exact carries_wrapIn _ _ _ _ _ _ _ _ h.carries h.positions.w_mod hcov.fits hturn (by omega)
  · rw [hacc]
    calc s.delivered = s.accepted.take s.delivered.length := h.order
      _ = (s.accepted ++ slice src 0 (a + b)).take s.delivered.length :=
        (List.take_append_of_le_length hle).symm

theorem tracks_read (s : Session) (dst : Mem) (n : UInt64) (h : Tracks s)
    (hn : n.toNat < 2 ^ 32) :
    Tracks (sessionStep s (.read dst n)).1 ∧
      (sessionStep s (.read dst n)).2.toNat = min n.toNat (rbufRcap s.buf).toNat := by
  have hle := h.positions.le
  have hrcap : (rbufRcap s.buf).toNat = s.accepted.length - s.delivered.length :=
    positions_rcap _ _ _ _ _ h.positions
  rcases positions_read _ _ _ n _ _ h.positions hn with ⟨a, b, hcov, hcopies, hsum, hpos⟩
  have hturn := covers_split _ _ _ a b _ _ hcov
  have hret : (sessionStep s (.read dst n)).2.toNat = a + b := hcov.ret
  have hmoved : runCopies dst s.buf.data
      (rbufReadPlan s.buf.cap s.buf.rpos s.buf.wpos n).copies
      = wrapOut dst s.buf.data s.buf.rpos.toNat a b := runCopies_read _ _ _ _ _ _ hcopies
  -- The bytes delivered are the next ones accepted.
  have hdel : (sessionStep s (.read dst n)).1.delivered
      = s.accepted.take (s.delivered.length + (a + b)) := by
    calc (sessionStep s (.read dst n)).1.delivered
        = s.delivered ++ slice (wrapOut dst s.buf.data s.buf.rpos.toNat a b) 0 (a + b) := by
          rw [← hmoved, ← hret]
          rfl
      _ = s.accepted.take s.delivered.length ++
            (s.accepted.drop s.delivered.length).take (a + b) := by
          rw [carries_wrapOut _ _ _ _ _ _ _ _ h.carries h.positions.r_mod hcov.fits hturn
            (by omega), ← h.order]
      _ = s.accepted.take (s.delivered.length + (a + b)) := take_append_next _ _ _
  have hlen : (sessionStep s (.read dst n)).1.delivered.length
      = s.delivered.length + (a + b) := by
    rw [hdel, List.length_take_of_le (by omega)]
  refine ⟨⟨?_, ?_, ?_⟩, by rw [hret, hsum, hrcap]⟩
  · rw [hlen]
    exact hpos
  · rw [hlen]
    exact carries_release _ _ _ _ _ h.carries (by omega) (by
      change s.delivered.length + (a + b) ≤ s.accepted.length
      omega)
  · rw [hlen]
    exact hdel

/-- A write at `rpos = 0` that asks for more than there is room for is granted
    in full. What is left of the request at the end of the block, if anything,
    goes over the bytes at the beginning. -/
theorem rbufWritePlan_overfill (cap w : UInt32) (n : UInt64) (hcap : cap.toNat + 1 < 2 ^ 32)
    (hw : w.toNat ≤ cap.toNat) (hn : n.toNat < 2 ^ 32) (hbig : cap.toNat < w.toNat + n.toNat) :
    (rbufWritePlan cap 0 w n).ret.toNat = n.toNat ∧
      ((rbufWritePlan cap 0 w n).pos.toNat = cap.toNat + 1 ∧ w.toNat + n.toNat = cap.toNat + 1 ∨
        (rbufWritePlan cap 0 w n).pos.toNat + (cap.toNat + 1) = w.toNat + n.toNat) := by
  by_cases hend : w.toNat + n.toNat ≤ cap.toNat + 1
  · have hplan := rbufWritePlan_short cap 0 w n hcap hn (Nat.zero_le _) hend
    exact ⟨hplan.ret, Or.inl ⟨by rw [hplan.pos]; omega, by omega⟩⟩
  · -- The capacity of the second copy is `0 - 1` and bounds nothing.
    have hplan := rbufWritePlan_turned cap 0 w n hcap hn (Nat.zero_le _) (by omega) (by omega)
    rw [show ((0 : UInt32) - 1).toNat = 2 ^ 32 - 1 by decide, Nat.min_eq_right (by omega)] at hplan
    exact ⟨by rw [hplan.ret]; omega, Or.inr (by rw [hplan.pos]; omega)⟩

theorem overfill_breaks_law (s : Session) (src : Mem) (n : UInt64) (h : Tracks s)
    (hn : n.toNat < 2 ^ 32) (hfit : ¬ Fitting s (.write src n)) :
    ¬ FifoLaw (sessionStep s (.write src n)).1 := by
  simp only [Fitting, Classical.not_imp] at hfit
  rcases hfit with ⟨hzero, hbig⟩
  have hwcap : (rbufWcap s.buf).toNat
      = s.buf.cap.toNat - (s.accepted.length - s.delivered.length) :=
    positions_wcap _ _ _ _ _ h.positions
  have hdist := positions_distance _ _ _ _ _ h.positions
  rw [hzero, if_neg (by omega), Nat.sub_zero] at hdist
  have hle := h.positions.le
  have hcap := h.positions.cap_lt
  have hwle := h.positions.w_le
  have hturn := h.positions.turn
  have hr0 : s.buf.rpos = 0 := UInt32.toNat_inj.mp (by rw [hzero, UInt32.toNat_zero])
  rcases rbufWritePlan_overfill s.buf.cap s.buf.wpos n hcap (by omega) hn (by omega) with
    ⟨hret, hpos⟩
  have hacc : (sessionStep s (.write src n)).1.accepted.length
      = s.accepted.length + n.toNat := by
    simp only [sessionStep, rbufWrite, rbufGetRpos, rbufGetWpos, hr0, List.length_append,
      slice_length, hret]
  -- The buffer's own count, with `rpos` at zero, is the new write position.
  have hcount : (rbufRcap (sessionStep s (.write src n)).1.buf).toNat
      = (rbufWritePlan s.buf.cap 0 s.buf.wpos n).pos.toNat := by
    simp only [sessionStep, rbufWrite, rbufRcap, rbufGetRpos, rbufGetWpos, rbufSetWpos, hr0]
    rw [rcapOf, if_neg (fun hlt => Nat.not_lt_zero _ (UInt32.lt_iff_toNat_lt.mp hlt)),
      UInt32.toNat_toUInt64, UInt32.sub_zero]
  -- Either the count exceeds `cap`, or it is a turn short of what was accepted.
  rintro ⟨_, hlaw, hfew, _⟩
  rw [held, window_length, hcount] at hfew
  rw [hcount, hacc] at hlaw
  change _ ≤ s.buf.cap.toNat at hfew
  change s.delivered.length + _ = _ at hlaw
  omega

theorem tracks_step (s : Session) (op : RbufOp) (h : Tracks s) (hn : op.size.toNat < 2 ^ 32)
    (hfit : Fitting s op) : Tracks (sessionStep s op).1 := by
  cases op with
  | write src n => exact (tracks_write s src n h hn hfit).1
  | read dst n => exact (tracks_read s dst n h hn).1

/-- From a state that satisfies the invariant, a run keeps the law at every
    point exactly if every write fits. -/
theorem law_iff_fitting (ops : List RbufOp) : ∀ (s : Session), Tracks s →
    (∀ op ∈ ops, op.size.toNat < 2 ^ 32) →
    ((∀ k, FifoLaw (Machine.run sessionStep s (ops.take k)).1) ↔
      Machine.Along sessionStep Fitting s ops) := by
  induction ops with
  | nil =>
      intro s h _
      exact ⟨fun _ => trivial, fun _ k => by rw [List.take_nil]; exact tracks_law s h⟩
  | cons op ops ih =>
      intro s h hn
      have hop := hn op List.mem_cons_self
      have hops : ∀ op ∈ ops, op.size.toNat < 2 ^ 32 :=
        fun o ho => hn o (List.mem_cons_of_mem _ ho)
      -- From the law to the condition, and from the condition to the law.
      constructor
      · -- The first operation that does not fit breaks the law at once.
        intro hlaw
        have hfit : Fitting s op := by
          by_contra hc
          cases op with
          -- Reads always fit, so the operation is a write.
          | write src n => exact overfill_breaks_law s src n h hop hc (hlaw 1)
          | read dst n => exact hc trivial
        -- The rest of the run starts in a state that still tracks the law.
        refine ⟨hfit, (ih _ (tracks_step s op h hop hfit) hops).mp (fun k => ?_)⟩
        exact hlaw (k + 1)
      · rintro ⟨hfit, hrest⟩ k
        cases k with
        | zero => exact tracks_law s h
        | succ j => exact (ih _ (tracks_step s op h hop hfit) hops).mpr hrest j

/-- A buffer is a queue of at most `cap` bytes throughout a run exactly if
    every write of the run made at `rpos = 0` asks for no more than
    `rbuf_wcap`. -/
theorem rbuf_fifo_iff_fitting (data : Mem) (cap : UInt32) (buf : Rbuf) (ops : List RbufOp)
    (hcap : cap.toNat < 2 ^ 32 - 1)
    (hb : rbufCreate (some data) cap = some buf)
    (hn : ∀ op ∈ ops, op.size.toNat < 2 ^ 32) :
    (∀ k, FifoLaw (Machine.run sessionStep (opened buf) (ops.take k)).1) ↔
      Machine.Along sessionStep Fitting (opened buf) ops :=
  law_iff_fitting ops (opened buf) (tracks_opened data cap buf (by omega) hb) hn

/-- A run that fills a buffer of three bytes, reads two, and then writes more
    than is free, which is cut short. -/
theorem rbuf_fifo_mixed_run :
    FifoLaw (Machine.run sessionStep
      (opened { rpos := 0, wpos := 0, cap := 3, data := fun _ => 0 })
      ([.write (fun _ => 7) 3, .read (fun _ => 0) 2, .write (fun _ => 9) 5].take 3)).1 :=
  (rbuf_fifo_iff_fitting (fun _ => 0) 3 _
    [.write (fun _ => 7) 3, .read (fun _ => 0) 2, .write (fun _ => 9) 5]
    (by decide) rfl (by decide)).mpr
    ⟨fun _ => by decide, trivial, fun h => absurd h (by decide), trivial⟩ 3

/-- A buffer of one byte takes two: the write is granted in full, and the
    buffer then reports two readable bytes. -/
theorem rbuf_overfill :
    ∃ buf, rbufCreate (some (fun _ => 0)) 1 = some buf ∧
      ¬ FifoLaw (Machine.run sessionStep (opened buf) [.write (fun _ => 7) 2]).1 := by
  refine ⟨_, rfl, ?_⟩
  decide

end Aircmn
