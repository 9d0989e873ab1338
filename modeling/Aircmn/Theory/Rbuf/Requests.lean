import Aircmn.Theory.Rbuf.Write

/-!
# Requests of Any Size

The sizes of `rbuf_read` and `rbuf_write` are of type `size_t`, and on the way
to a `memcpy` they pass through `_min`, whose arguments have 32 bits. What a
call does with a request is decided by the request modulo `2 ^ 32`, except
that a read or a write that has reached the end of the block compares what it
has moved with the whole request before it turns around.

A caller that drains a buffer until a read returns zero relies on zero meaning
that nothing is left, and on a large request being as good as one of exactly
`rbuf_rcap` bytes. Both are so unless the lower half of the request is smaller
than what there is to move.

## Main definitions

* `Modest`: A write asks for no more than `rbuf_wcap`.
* `ZeroMeansDone`: What a caller relies on.
* `Uncut`: The lower half of a request is as good as the request.

## Theorems

* `rbufReadPlan_ret`: What a read returns, for every request.
* `rbufWritePlan_zero`: When a write returns zero.
* `readBeyond_iff`: When a large read is like one of `rbuf_rcap` bytes.
* `rbuf_zero_iff_uncut`: A caller can rely on what it does exactly for the
  requests that are not cut.
* `rbuf_zero_short_request`: A request in use.
* `rbuf_zero_cut_request`: A request of `2 ^ 32` bytes.
-/

namespace Aircmn

open Bytes

/-- A read returns what there is or the lower half of the request, whichever
    is smaller. -/
theorem rbufReadPlan_ret (cap r w : UInt32) (n : UInt64) (hr : r.toNat ≤ cap.toNat + 1) :
    (rbufReadPlan cap r w n).ret.toNat = min (rcapOf cap r w).toNat (n.toNat % 2 ^ 32) := by
  have hcap := cap.toNat_lt
  -- What the reader may have of the buffer, with the size cut to 32 bits.
  have hrcap := rcapOf_toNat cap r w hr
  by_cases hwr : w.toNat < r.toNat
  · rw [if_pos hwr] at hrcap
    by_cases hend : r.toNat + n.toNat ≤ cap.toNat + 1
    · have hret := (rbufReadPlan_toEnd cap r w n hwr hr hend).ret
      -- Up to the end of the block the request is met in one copy.
      omega
    · -- What the first part leaves of the lower half goes to the second.
      rcases rbufReadPlan_around cap r w n hwr hr (by omega) with ⟨a, b, ha, hb, hplan⟩
      have hret := hplan.ret
      omega
  · rw [if_neg hwr] at hrcap
    have hret := (rbufReadPlan_between cap r w n (by omega)).ret
    omega

/-- A write returns zero if the lower half of the request is zero, and
    otherwise only if there is no room. -/
theorem rbufWritePlan_zero (buf : Rbuf) (n : UInt64) (h : RbufInv buf) (hn : 1 ≤ n.toNat) :
    (n.toNat % 2 ^ 32 = 0 → (rbufWritePlan buf.cap buf.rpos buf.wpos n).ret.toNat = 0) ∧
      (n.toNat % 2 ^ 32 ≠ 0 → (rbufWritePlan buf.cap buf.rpos buf.wpos n).ret.toNat = 0 →
        (rbufWcap buf).toNat = 0) := by
  have hw := h.inBlock.w_le
  have hcap := buf.cap.toNat_lt
  have hwcap := (rbufInv_caps buf h).2
  -- Below rpos the plan is one copy, and above it the wrapping branch is taken.
  by_cases hwr : buf.wpos.toNat < buf.rpos.toNat
  · rw [if_pos hwr] at hwcap
    have hret := (rbufWritePlan_between buf.cap _ _ n hwr).ret
    omega
  · rw [if_neg hwr] at hwcap
    by_cases hend : n.toNat ≤ (buf.cap.toNat + 1 - buf.wpos.toNat) % 2 ^ 32
    · have hret := (rbufWritePlan_toEnd _ _ _ n (Nat.le_of_not_lt hwr) hw hend).ret
      omega
    · rcases rbufWritePlan_around _ _ _ n (Nat.le_of_not_lt hwr) hw (Nat.lt_of_not_le hend) with
        ⟨a, b, ha, hb, hplan⟩
      have hret := hplan.ret
      -- At rpos = 0 the second copy of that branch gets a room of 2 ^ 32 - 1.
      rw [UInt32.toNat_sub, UInt32.toNat_one] at hb
      omega

/-- A write asks for no more than `rbuf_wcap`. -/
def Modest (s : Session) : RbufOp → Prop
  | .write _ n => n.toNat ≤ (rbufWcap s.buf).toNat
  | .read _ _ => True

instance (s : Session) : ∀ op : RbufOp, Decidable (Modest s op)
  | .write _ n => inferInstanceAs (Decidable (n.toNat ≤ (rbufWcap s.buf).toNat))
  | .read _ _ => inferInstanceAs (Decidable True)

theorem modest_fitting (s : Session) (op : RbufOp) (h : Modest s op) : Fitting s op := by
  cases op with
  | write src n => exact fun _ => h
  | read dst n => trivial

/-- A read of `n` bytes delivers and leaves the same bytes as one of exactly
    `rbuf_rcap`. -/
def ReadsAll (buf : Rbuf) (n : UInt64) : Prop :=
  ∀ dst : Mem,
    slice (rbufRead dst buf n).2.1 0 (rbufRead dst buf n).1.toNat
        = slice (rbufRead dst buf (rbufRcap buf)).2.1 0 (rbufRead dst buf (rbufRcap buf)).1.toNat ∧
      unread (rbufRead dst buf n).2.2 = unread (rbufRead dst buf (rbufRcap buf)).2.2

/-- Zero returned means that the buffer was empty, or that it was full, and a
    request beyond what is there is a request for what is there. -/
structure ZeroMeansDone (buf : Rbuf) (n : UInt64) : Prop where
  read : ∀ dst, (rbufRead dst buf n).1 = 0 → rbufRcap buf = 0
  write : ∀ src, (rbufWrite buf src n).1 = 0 → rbufWcap buf = 0
  beyond : rbufRcap buf < n → ReadsAll buf n

/-- The lower half of the request is not zero, unless the buffer has no room
    for a byte at all, and does not fall short of the bytes that can be read if
    the request does not. -/
structure Uncut (buf : Rbuf) (n : UInt64) : Prop where
  nonzero : n.toNat % 2 ^ 32 = 0 → buf.cap.toNat = 0
  enough : (rbufRcap buf).toNat < n.toNat → (rbufRcap buf).toNat ≤ n.toNat % 2 ^ 32

theorem toNat_eq_zero (x : UInt64) : x = 0 ↔ x.toNat = 0 := by
  rw [← UInt64.toNat_inj, UInt64.toNat_zero]

theorem readBeyond_iff (buf : Rbuf) (n : UInt64) (h : RbufInv buf)
    (hn : (rbufRcap buf).toNat < n.toNat) :
    ReadsAll buf n ↔ (rbufRcap buf).toNat ≤ n.toNat % 2 ^ 32 := by
  -- Reading exactly what is there is one read that is met.
  have hall : ∀ dst, ReadExact dst buf (rbufRcap buf) :=
    fun dst => readExact_of_uncut dst buf _ h.inBlock (Or.inl (Nat.le_refl _))
  have hlen := unread_length buf h.inBlock
  constructor
  · -- As many bytes are delivered as are returned.
    intro hreads
    have hcount := congrArg List.length (hreads (fun _ => 0)).1
    rw [slice_length, slice_length, (hall _).ret, hlen, Nat.min_self] at hcount
    have hret : (rbufRead (fun _ => 0) buf n).1.toNat = _ :=
      rbufReadPlan_ret buf.cap buf.rpos buf.wpos n h.inBlock.r_le
    change (rcapOf buf.cap buf.rpos buf.wpos).toNat ≤ _
    change _ = (rcapOf buf.cap buf.rpos buf.wpos).toNat at hcount
    omega
  -- The cut leaves at least the unread bytes, so the same are delivered.
  · intro hle dst
    have hread := readExact_of_uncut dst buf n h.inBlock (Or.inr hle)
    rw [hread.delivered, (hall dst).delivered, hread.rest, (hall dst).rest]
    -- Both reads take everything there is.
    refine ⟨?_, ?_⟩
    · rw [List.take_of_length_le (by omega), List.take_of_length_le (by omega)]
    · rw [List.drop_of_length_le (by omega), List.drop_of_length_le (by omega)]

theorem zeroMeansDone_iff (buf : Rbuf) (n : UInt64) (h : RbufInv buf) (hn : 1 ≤ n.toNat) :
    ZeroMeansDone buf n ↔ Uncut buf n := by
  rcases rbufWritePlan_zero buf n h hn with ⟨hcut, huncut⟩
  have hret : ∀ dst, (rbufRead dst buf n).1.toNat
      = min (rbufRcap buf).toNat (n.toNat % 2 ^ 32) :=
    fun _ => rbufReadPlan_ret buf.cap buf.rpos buf.wpos n h.inBlock.r_le
  -- Nothing to read and no room is a buffer of no capacity.
  have hsum : (rbufRcap buf).toNat + (rbufWcap buf).toNat = buf.cap.toNat := by
    rcases rbufInv_caps buf h with ⟨hrcap, hwcap⟩
    have hr := h.inBlock.r_le
    have hfew := h.few
    split at hrcap <;> split at hwcap <;> omega
  constructor
  · intro hdone
    refine ⟨fun hzero => ?_, fun hlt => ?_⟩
    · have hread := hdone.read (fun _ => 0)
        ((toNat_eq_zero _).mpr (by rw [hret, hzero, Nat.min_zero]))
      have hwrite := hdone.write (fun _ => 0) ((toNat_eq_zero _).mpr (hcut hzero))
      rw [toNat_eq_zero] at hread hwrite
      omega
    · exact (readBeyond_iff buf n h hlt).mp (hdone.beyond (UInt64.lt_iff_toNat_lt.mpr hlt))
  · intro hgood
    have hnonzero := hgood.nonzero
    refine ⟨fun dst hzero => ?_, fun src hzero => ?_, fun hlt => ?_⟩
    · have hmin := hret dst
      rw [toNat_eq_zero] at hzero ⊢
      omega
    · rw [toNat_eq_zero] at hzero ⊢
      by_cases hlow : n.toNat % 2 ^ 32 = 0
      · have hcap := hnonzero hlow
        omega
      · exact huncut hlow hzero
    · have hlt' := UInt64.lt_iff_toNat_lt.mp hlt
      exact (readBeyond_iff buf n h hlt').mpr (hgood.enough hlt')

/-- In every state reached by reads of any size and by writes that ask for no
    more than `rbuf_wcap`, a caller can rely on a request of at least one byte
    exactly if it is not cut. -/
theorem rbuf_zero_iff_uncut (data : Mem) (cap : UInt32) (buf : Rbuf) (ops : List RbufOp)
    (hb : rbufCreate (some data) cap = some buf)
    (hops : Machine.Along sessionStep Modest (opened buf) ops) (n : UInt64) (hn : 1 ≤ n) :
    ZeroMeansDone (Machine.run sessionStep (opened buf) ops).1.buf n ↔
      Uncut (Machine.run sessionStep (opened buf) ops).1.buf n := by
  have hinv := Machine.run_invariant_along sessionStep Modest (fun s => RbufInv s.buf)
    (fun s op h hop => rbufInv_step s op h (modest_fitting s op hop)) ops (opened buf)
    (rbufInv_create data cap buf hb).1 hops
  exact zeroMeansDone_iff _ n hinv (UInt64.le_iff_toNat_le.mp hn)

/-- A request below `2 ^ 32` is never cut. -/
theorem uncut_of_lt (buf : Rbuf) (n : UInt64) (hpos : 1 ≤ n.toNat) (hn : n.toNat < 2 ^ 32) :
    Uncut buf n := by
  refine ⟨fun hzero => ?_, fun hlt => ?_⟩
  · rw [Nat.mod_eq_of_lt hn] at hzero
    omega
  · rw [Nat.mod_eq_of_lt hn]
    exact Nat.le_of_lt hlt

/-- A buffer of three bytes, filled, and a request for nine of them. -/
theorem rbuf_zero_short_request :
    ZeroMeansDone (Machine.run sessionStep
      (opened { rpos := 0, wpos := 0, cap := 3, data := fun _ => 0 })
      [.write (fun _ => 7) 3]).1.buf 9 :=
  (rbuf_zero_iff_uncut (fun _ => 0) 3 _ [.write (fun _ => 7) 3] rfl ⟨by decide, trivial⟩ 9
    (by decide)).mpr (uncut_of_lt _ 9 (by decide) (by decide))

/-- The same buffer and a request for `2 ^ 32` bytes: zero is returned, with
    three bytes to be read. -/
theorem rbuf_zero_cut_request :
    ∃ buf, rbufCreate (some (fun _ => 0)) 3 = some buf ∧
      Modest (opened buf) (.write (fun _ => 7) 3) ∧
      ¬ ZeroMeansDone (sessionStep (opened buf) (.write (fun _ => 7) 3)).1.buf 4294967296 :=
  ⟨_, rfl, by decide, fun h => absurd (h.read (fun _ => 0) (by decide)) (by decide)⟩

end Aircmn
