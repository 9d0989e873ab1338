import Aircmn.Theory.Rbuf.Read

/-!
# Writing the Byte Ring Buffer

What a single write does to a buffer that is in use. `RbufInv` is what the
positions of such a buffer satisfy: they are in the block or just past it, and
at most `cap` bytes lie between them. Every read keeps it, of whatever size,
and so does every write but those made at `rpos = 0` that ask for more than
`rbuf_wcap`.

On a buffer that satisfies it a write does what it should, `WriteSafe`,
exactly if it is not one of these. The others are granted in full, whatever
the room: this is `rbufWritePlan_overfill` again, seen from the side of the
memory.

## Main definitions

* `RbufInv`: The invariant.
* `unreadIndices`: Where the bytes lie that can be read.
* `WriteSafe`: What a write is to do.

## Theorems

* `unread_eq_map`: The bytes at these indices are the unread ones.
* `rbufInv_read`, `rbufInv_write`, `rbufInv_run`: Calls keep the invariant.
* `writeSafe_of_fits`: A write that fits is safe.
* `overfill_not_safe`: One that does not is not.
* `rbuf_write_safe_iff`: After every run of writes that fit, a write is safe
  exactly if it does.
* `rbuf_write_wraps`: A write around the end of a block.
* `rbuf_write_unsafe`: A write that leaves the block.
-/

namespace Aircmn

open Bytes

/-- The positions are in the block or just past it, and at most `cap` bytes
    lie between them. -/
structure RbufInv (buf : Rbuf) : Prop where
  inBlock : InBlock buf
  few : (rbufRcap buf).toNat ≤ buf.cap.toNat

/-- The indices of the bytes that can be read, in order. -/
def unreadIndices (buf : Rbuf) : List Nat :=
  if buf.rpos ≤ buf.wpos then List.range' buf.rpos.toNat (buf.wpos.toNat - buf.rpos.toNat)
  else
    List.range' buf.rpos.toNat (buf.cap.toNat + 1 - buf.rpos.toNat)
      ++ List.range' 0 buf.wpos.toNat

theorem unread_eq_map (buf : Rbuf) : unread buf = (unreadIndices buf).map buf.data := by
  have hslice : ∀ a n, slice buf.data a n = (List.range' a n).map buf.data := by
    intro a n
    rw [List.range'_eq_map_range, List.map_map]
    rfl
  unfold unread unreadIndices
  by_cases hrw : buf.rpos ≤ buf.wpos
  · rw [if_pos hrw, if_pos hrw, hslice]
  · rw [if_neg hrw, if_neg hrw, List.map_append, hslice, hslice]

theorem mem_unreadIndices (buf : Rbuf) (j : Nat) : j ∈ unreadIndices buf ↔
    if buf.wpos.toNat < buf.rpos.toNat then
      buf.rpos.toNat ≤ j ∧ j < buf.rpos.toNat + (buf.cap.toNat + 1 - buf.rpos.toNat)
        ∨ j < buf.wpos.toNat
    else buf.rpos.toNat ≤ j ∧ j < buf.wpos.toNat := by
  unfold unreadIndices
  by_cases hrw : buf.rpos.toNat ≤ buf.wpos.toNat
  · rw [if_pos (UInt32.le_iff_toNat_le.mpr hrw), if_neg (by omega), List.mem_range'_1]
    omega
  · rw [if_neg (fun hc => hrw (UInt32.le_iff_toNat_le.mp hc)), if_pos (by omega)]
    simp [List.mem_range'_1]

theorem rbufInv_create (data : Mem) (cap : UInt32) (buf : Rbuf)
    (hb : rbufCreate (some data) cap = some buf) : RbufInv buf ∧ buf.cap = cap := by
  simp only [rbufCreate, Option.map_some, Option.some.injEq] at hb
  rw [← hb]
  refine ⟨⟨⟨Nat.zero_le _, Nat.zero_le _⟩, ?_⟩, rfl⟩
  change (rcapOf cap 0 0).toNat ≤ cap.toNat
  rw [rcapOf_toNat cap 0 0 (Nat.zero_le _)]
  simp

/-- The two capacities of a buffer in use, in terms of its positions. -/
theorem rbufInv_caps (buf : Rbuf) (h : RbufInv buf) :
    (rbufRcap buf).toNat = (if buf.wpos.toNat < buf.rpos.toNat
        then buf.cap.toNat + 1 + buf.wpos.toNat - buf.rpos.toNat
        else buf.wpos.toNat - buf.rpos.toNat) ∧
      (rbufWcap buf).toNat = if buf.wpos.toNat < buf.rpos.toNat
        then buf.rpos.toNat - buf.wpos.toNat - 1
        else buf.cap.toNat + buf.rpos.toNat - buf.wpos.toNat := by
  have hrcap : (rbufRcap buf).toNat = _ := rcapOf_toNat buf.cap buf.rpos buf.wpos h.inBlock.r_le
  have hfew := h.few
  refine ⟨hrcap, wcapOf_toNat buf.cap buf.rpos buf.wpos ?_⟩
  split at hrcap <;> omega

theorem rbufInv_read (dst : Mem) (buf : Rbuf) (n : UInt64) (h : RbufInv buf) :
    RbufInv (rbufRead dst buf n).2.2 := by
  have hr := h.inBlock.r_le
  have hw := h.inBlock.w_le
  have hcaps := (rbufInv_caps buf h).1
  have hfew := h.few
  -- It is enough to find where the new position is.
  have hpos : ∀ p : UInt32, p.toNat ≤ buf.cap.toNat + 1 →
      (p.toNat ≤ buf.wpos.toNat → buf.wpos.toNat - p.toNat ≤ buf.cap.toNat) →
      RbufInv (rbufSetRpos buf p) := by
    intro p hp hle
    refine ⟨⟨hp, hw⟩, ?_⟩
    have hrcap := rcapOf_toNat buf.cap p buf.wpos hp
    change (rcapOf buf.cap p buf.wpos).toNat ≤ buf.cap.toNat
    split at hrcap <;> omega
  change RbufInv (rbufSetRpos buf (rbufReadPlan buf.cap buf.rpos buf.wpos n).pos)
  by_cases hwr : buf.wpos.toNat < buf.rpos.toNat
  · by_cases hend : buf.rpos.toNat + n.toNat ≤ buf.cap.toNat + 1
    · have hplan := (rbufReadPlan_toEnd _ _ _ n hwr hr hend).pos
      exact hpos _ (by omega) (by omega)
    · rcases rbufReadPlan_around _ _ _ n hwr hr (by omega) with ⟨a, b, _, hb, hplan⟩
      have hp := hplan.pos
      exact hpos _ (by omega) (by omega)
  · have hplan := (rbufReadPlan_between buf.cap _ _ n (Nat.le_of_not_lt hwr)).pos
    rw [if_neg hwr] at hcaps
    exact hpos _ (by omega) (by omega)

theorem rbufInv_write (buf : Rbuf) (src : Mem) (n : UInt64) (h : RbufInv buf)
    (hfit : buf.rpos.toNat = 0 → n.toNat ≤ (rbufWcap buf).toNat) :
    RbufInv (rbufWrite buf src n).2 := by
  have hr := h.inBlock.r_le
  have hw := h.inBlock.w_le
  have hcap := buf.cap.toNat_lt
  rcases rbufInv_caps buf h with ⟨hrcap, hwcap⟩
  have hfew := h.few
  -- The new position is behind `rpos`, or not so far ahead of it.
  have hpos : ∀ p : UInt32, p.toNat ≤ buf.cap.toNat + 1 → p.toNat ≤ buf.cap.toNat + buf.rpos.toNat →
      RbufInv (rbufSetWpos { buf with data := (rbufWrite buf src n).2.data } p) := by
    intro p hp hle
    refine ⟨⟨hr, hp⟩, ?_⟩
    have hrcap := rcapOf_toNat buf.cap buf.rpos p hr
    change (rcapOf buf.cap buf.rpos p).toNat ≤ buf.cap.toNat
    split at hrcap <;> omega
  change RbufInv (rbufSetWpos { buf with data := (rbufWrite buf src n).2.data }
    (rbufWritePlan buf.cap buf.rpos buf.wpos n).pos)
  by_cases hwr : buf.wpos.toNat < buf.rpos.toNat
  · have hplan := (rbufWritePlan_between buf.cap _ _ n hwr).pos
    exact hpos _ (by omega) (by omega)
  · rw [if_neg hwr] at hrcap hwcap
    by_cases hend : n.toNat ≤ (buf.cap.toNat + 1 - buf.wpos.toNat) % 2 ^ 32
    · have hplan := (rbufWritePlan_toEnd _ _ _ n (Nat.le_of_not_lt hwr) hw hend).pos
      exact hpos _ (by omega) (by omega)
    · rcases rbufWritePlan_around _ _ _ n (Nat.le_of_not_lt hwr) hw (Nat.lt_of_not_le hend) with
        ⟨a, b, ha, hb, hplan⟩
      have hp := hplan.pos
      have hone : buf.rpos.toNat ≠ 0 → (buf.rpos - 1).toNat = buf.rpos.toNat - 1 := by
        intro hne
        rw [UInt32.toNat_sub, UInt32.toNat_one]
        omega
      -- At zero only a request that starts the largest block gets here.
      by_cases hzero : buf.rpos.toNat = 0
      · have hsmall := hfit hzero
        exact hpos _ (by omega) (by omega)
      · have hprev := hone hzero
        exact hpos _ (by omega) (by omega)

theorem rbufInv_step (s : Session) (op : RbufOp) (h : RbufInv s.buf) (hfit : Fitting s op) :
    RbufInv (sessionStep s op).1.buf := by
  cases op with
  | write src n => exact rbufInv_write s.buf src n h hfit
  | read dst n => exact rbufInv_read dst s.buf n h

/-- The capacity is never stored to. -/
theorem sessionStep_cap (s : Session) (op : RbufOp) :
    (sessionStep s op).1.buf.cap = s.buf.cap := by
  cases op with
  | write src n => rfl
  | read dst n => rfl

theorem rbufInv_run (s : Session) (ops : List RbufOp) (h : RbufInv s.buf)
    (hfit : Machine.Along sessionStep Fitting s ops) :
    RbufInv (Machine.run sessionStep s ops).1.buf ∧
      (Machine.run sessionStep s ops).1.buf.cap = s.buf.cap :=
  Machine.run_invariant_along sessionStep Fitting
    (fun t => RbufInv t.buf ∧ t.buf.cap = s.buf.cap)
    (fun t op ht hop => ⟨rbufInv_step t op ht.1 hop, (sessionStep_cap t op).trans ht.2⟩)
    ops s ⟨h, rfl⟩ hfit

/-- A write of `n` bytes returns the smaller of `n` and `rbuf_wcap`, stores in
    the block and to no unread byte, and leaves a buffer with at most `cap`
    unread bytes. -/
structure WriteSafe (buf : Rbuf) (src : Mem) (n : UInt64) : Prop where
  ret : (rbufWrite buf src n).1.toNat = min n.toNat (rbufWcap buf).toNat
  inside : ∀ c ∈ (rbufWritePlan buf.cap buf.rpos buf.wpos n).copies,
    ∀ j, c.dst ≤ j → j < c.dst + c.len → j ≤ buf.cap.toNat
  spared : ∀ c ∈ (rbufWritePlan buf.cap buf.rpos buf.wpos n).copies,
    ∀ j, c.dst ≤ j → j < c.dst + c.len → j ∉ unreadIndices buf
  inv : RbufInv (rbufWrite buf src n).2

theorem writeSafe_of_fits (buf : Rbuf) (src : Mem) (n : UInt64) (h : RbufInv buf)
    (hcap : buf.cap.toNat + 1 < 2 ^ 32) (hn : n.toNat < 2 ^ 32)
    (hfit : buf.rpos.toNat = 0 → n.toNat ≤ (rbufWcap buf).toNat) : WriteSafe buf src n := by
  have hr := h.inBlock.r_le
  have hw := h.inBlock.w_le
  rcases rbufInv_caps buf h with ⟨hrcap, hwcap⟩
  -- What is stored lies from `wpos` to `rpos`, which two intervals say.
  have hall : ∀ cs k p, (rbufWritePlan buf.cap buf.rpos buf.wpos n).Is cs k p →
      k = min n.toNat (rbufWcap buf).toNat →
      (∀ c ∈ cs, ∀ j, c.dst ≤ j → j < c.dst + c.len →
        j ≤ buf.cap.toNat ∧ j ∉ unreadIndices buf) → WriteSafe buf src n := by
    intro cs k p hplan hk hstored
    rw [← hplan.copies] at hstored
    exact ⟨hplan.ret.trans hk, fun c hc j hlo hhi => (hstored c hc j hlo hhi).1,
      fun c hc j hlo hhi => (hstored c hc j hlo hhi).2, rbufInv_write buf src n h hfit⟩
  by_cases hwr : buf.wpos.toNat < buf.rpos.toNat
  · rw [if_pos hwr] at hwcap
    refine hall _ _ _ (rbufWritePlan_straight buf.cap _ _ n hn hwr) (by omega) ?_
    intro c hc j hlo hhi
    rw [List.mem_singleton] at hc
    subst hc
    rw [mem_unreadIndices, if_pos hwr]
    simp only at hlo hhi
    omega
  · rw [if_neg hwr] at hrcap hwcap
    by_cases hend : buf.wpos.toNat + n.toNat ≤ buf.cap.toNat + 1
    · refine hall _ _ _ (rbufWritePlan_short _ _ _ n hcap hn (by omega) hend) ?_ ?_
      · by_cases hzero : buf.rpos.toNat = 0
        · exact (Nat.min_eq_left (hfit hzero)).symm
        · omega
      · intro c hc j hlo hhi
        rw [List.mem_singleton] at hc
        subst hc
        rw [mem_unreadIndices, if_neg hwr]
        simp only at hlo hhi
        omega
    · -- A request that fits does not turn around at `rpos = 0`.
      have hone : (buf.rpos - 1).toNat = buf.rpos.toNat - 1 := by
        rw [UInt32.toNat_sub, UInt32.toNat_one]
        omega
      refine hall _ _ _ (rbufWritePlan_turned _ _ _ n hcap hn (by omega) hw (by omega))
        (by omega) ?_
      intro c hc j hlo hhi
      rw [List.mem_cons, List.mem_singleton] at hc
      rw [mem_unreadIndices, if_neg hwr]
      rcases hc with hc | hc
      · subst hc
        simp only at hlo hhi
        omega
      · subst hc
        simp only at hlo hhi
        omega

/-- Too large a request at `rpos = 0` is granted in full. -/
theorem overfill_not_safe (buf : Rbuf) (src : Mem) (n : UInt64) (h : RbufInv buf)
    (hcap : buf.cap.toNat + 1 < 2 ^ 32) (hn : n.toNat < 2 ^ 32) (hzero : buf.rpos.toNat = 0)
    (hbig : (rbufWcap buf).toNat < n.toNat) : ¬ WriteSafe buf src n := by
  have hr0 : buf.rpos = 0 := UInt32.toNat_inj.mp (by rw [hzero, UInt32.toNat_zero])
  -- At rpos 0 the second copy takes a room of 2 ^ 32 - 1 bytes instead of none.
  rcases rbufInv_caps buf h with ⟨hrcap, hwcap⟩
  have hfew := h.few
  rw [if_neg (by omega)] at hrcap hwcap
  -- So the whole size is accepted, more than wcap allows.
  have hret : (rbufWrite buf src n).1.toNat = n.toNat := by
    change (rbufWritePlan buf.cap buf.rpos buf.wpos n).ret.toNat = n.toNat
    rw [hr0]
    exact (rbufWritePlan_overfill buf.cap buf.wpos n hcap (by omega) hn (by omega)).1
  intro hsafe
  -- The return value alone shows it.
  have hmin := hsafe.ret
  omega

/-- After a run whose writes made at `rpos = 0` ask for no more than
    `rbuf_wcap`, reads and other writes being of any size, a write is safe
    exactly if it does the same. -/
theorem rbuf_write_safe_iff (data : Mem) (cap : UInt32) (buf : Rbuf) (ops : List RbufOp)
    (hcap : cap.toNat < 2 ^ 32 - 1)
    (hb : rbufCreate (some data) cap = some buf)
    (hops : Machine.Along sessionStep Fitting (opened buf) ops)
    (src : Mem) (n : UInt64) (hn : n.toNat < 2 ^ 32) :
    WriteSafe (Machine.run sessionStep (opened buf) ops).1.buf src n ↔
      Fitting (Machine.run sessionStep (opened buf) ops).1 (.write src n) := by
  rcases rbufInv_create data cap buf hb with ⟨hinv, hbcap⟩
  rcases rbufInv_run (opened buf) ops hinv hops with ⟨h, hsame⟩
  -- The capacity is below the limit and no operation changes it.
  have hlt : (Machine.run sessionStep (opened buf) ops).1.buf.cap.toNat + 1 < 2 ^ 32 := by
    rw [hsame]
    change buf.cap.toNat + 1 < 2 ^ 32
    rw [hbcap]
    omega
  constructor
  -- A write that is safe must have fitted, and one that fits is safe.
  · intro hsafe hzero
    exact Nat.le_of_not_lt (fun hbig => overfill_not_safe _ src n h hlt hn hzero hbig hsafe)
  · exact writeSafe_of_fits _ src n h hlt hn

/-- A buffer of three bytes, filled, with two bytes read, takes two of the five
    offered, around the end of its block. -/
theorem rbuf_write_wraps :
    WriteSafe (Machine.run sessionStep
      (opened { rpos := 0, wpos := 0, cap := 3, data := fun _ => 0 })
      [.write (fun _ => 7) 3, .read (fun _ => 0) 2]).1.buf (fun _ => 9) 5 :=
  (rbuf_write_safe_iff (fun _ => 0) 3 _ [.write (fun _ => 7) 3, .read (fun _ => 0) 2]
    (by decide) rfl ⟨fun _ => by decide, trivial, trivial⟩ (fun _ => 9) 5 (by decide)).mpr
    (fun h => absurd h (by decide))

/-- On a new buffer of one byte, whose block has two, a write of five returns
    five and stores to index 2. -/
theorem rbuf_write_unsafe :
    ∃ buf, rbufCreate (some (fun _ => 0)) 1 = some buf ∧
      (rbufWrite buf (fun _ => 7) 5).1 = 5 ∧ (rbufWrite buf (fun _ => 7) 5).2.data 2 = 7 ∧
      ¬ WriteSafe buf (fun _ => 7) 5 :=
  ⟨_, rfl, by decide, by decide, fun h => absurd h.ret (by decide)⟩

end Aircmn
