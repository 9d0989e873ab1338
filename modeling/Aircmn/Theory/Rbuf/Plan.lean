import Aircmn.Core.Rbuf
import Aircmn.Lib.Circular

/-!
# Plans of the Byte Ring Buffer

What `rbuf_read` and `rbuf_write` decide once both positions are loaded, in
terms of the two counters behind the positions: `R` bytes have been read since
the buffer was created and `W` written. `Positions` relates a pair of loaded
positions to a pair of counters. It asks for what the code's subtractions rely
on and no more, so it allows a position to be parked at `cap + 1`, and its
last clause excludes the one pair that would be misread.

A plan then covers the next bytes of the stream: `a` of them from the position
to at most the end of the block, and `b` from the beginning if the call turned
around. `Covers` says that, and `positions_write` and `positions_read` say how
many bytes and which positions result. Neither looks at the data, so both
apply to positions that were loaded at some earlier moment.

`rbuf_write` needs one hypothesis that `rbuf_read` does not. Turning around,
it takes its capacity to be `rpos - 1`, which for `rpos = 0` is not a capacity
at all; the hypothesis keeps a request made at `rpos = 0` from turning.

Each branch of the two functions has a lemma that says which copies, return
value and position it results in, whatever is asked for, so that no other proof
unfolds them. For a request of less than a word it has a simpler form.

## Main definitions

* `Positions`: Loaded positions stand for counters.
* `Plan.Is`: A plan in numbers.
* `Covers`: A plan covers the next bytes of the stream.
* `WriteCopies`, `ReadCopies`: The copies that does it with.

## Theorems

* `rcapOf_toNat`, `wcapOf_toNat`: The capacities as numbers.
* `positions_rcap`, `positions_wcap`: The capacities are the counters'
  difference and what it leaves.
* `rbufWritePlan_between`, `rbufWritePlan_toEnd`, `rbufWritePlan_around`: The
  branches of a write of any size, and the same for a read.
* `rbufWritePlan_straight`, `rbufWritePlan_short`, `rbufWritePlan_turned`: The
  branches where the request is modest, and the same for a read.
* `rbufWritePlan_covers`, `rbufReadPlan_covers`: What the branches cover.
* `positions_write`, `positions_read`: Positions after the call.
* `runCopies_write`, `runCopies_read`: Running the copies.
* `writeCopies_slot`, `readCopies_slot`: The slots the copies touch.
-/

namespace Aircmn

open Bytes Circular

/-- `_min` sees of either size what fits 32 bits. -/
theorem minSize_toNat (a b : UInt64) :
    (minSize a b).toNat = min (a.toNat % 2 ^ 32) (b.toNat % 2 ^ 32) := by
  rw [minSize, UInt32.toNat_toUInt64, min32]
  by_cases hab : a.toUInt32 < b.toUInt32
  · rw [if_pos hab, UInt64.toNat_toUInt32]
    rw [UInt32.lt_iff_toNat_lt, UInt64.toNat_toUInt32, UInt64.toNat_toUInt32] at hab
    omega
  · rw [if_neg hab, UInt64.toNat_toUInt32]
    rw [UInt32.lt_iff_toNat_lt, UInt64.toNat_toUInt32, UInt64.toNat_toUInt32] at hab
    omega

theorem advance_toNat (p : UInt32) (k : UInt64) :
    (p.toUInt64 + k).toUInt32.toNat = (p.toNat + k.toNat) % 2 ^ 32 := by
  rw [UInt64.toNat_toUInt32, UInt64.toNat_add, UInt32.toNat_toUInt64]
  omega

/-- What is left of a request after a first part that did not meet it, and the
    two parts together. -/
theorem minSize_rest (first second n : UInt64) :
    (minSize second (n - minSize first n)).toNat
        = min (second.toNat % 2 ^ 32) ((n.toNat - (minSize first n).toNat) % 2 ^ 32) ∧
      (minSize first n + minSize second (n - minSize first n)).toNat
        = (minSize first n).toNat + (minSize second (n - minSize first n)).toNat := by
  have hfirst := minSize_toNat first n
  have hrest := minSize_toNat second (n - minSize first n)
  -- The first part is at most the request, so nothing is borrowed.
  have hsub : (n - minSize first n).toNat = n.toNat - (minSize first n).toNat :=
    UInt64.toNat_sub_of_le _ _ (by rw [UInt64.le_iff_toNat_le]; omega)
  rw [hsub] at hrest
  refine ⟨hrest, ?_⟩
  rw [UInt64.toNat_add]
  omega

/-- The bytes from a position to the end of the block, as far as they can be
    counted in 32 bits. -/
theorem toEnd_toNat (cap p : UInt32) (hp : p.toNat ≤ cap.toNat + 1) :
    (cap - p + 1).toUInt64.toNat = (cap.toNat + 1 - p.toNat) % 2 ^ 32 := by
  rw [UInt32.toNat_toUInt64, UInt32.toNat_add, UInt32.toNat_sub, UInt32.toNat_one]
  have hcap := cap.toNat_lt
  omega

/-- The subtractions of `rbuf_rcap` come out as natural numbers. -/
theorem rcapOf_toNat (cap r w : UInt32) (hr : r.toNat ≤ cap.toNat + 1) :
    (rcapOf cap r w).toNat = if w.toNat < r.toNat then cap.toNat + 1 + w.toNat - r.toNat
      else w.toNat - r.toNat := by
  have hcap := cap.toNat_lt
  have hw := w.toNat_lt
  rw [rcapOf]
  by_cases hwr : w.toNat < r.toNat
  · rw [if_pos (UInt32.lt_iff_toNat_lt.mpr hwr), if_pos hwr, UInt32.toNat_toUInt64,
      UInt32.toNat_add, UInt32.toNat_sub, UInt32.toNat_add, UInt32.toNat_one]
    omega
  · rw [if_neg (fun hc => hwr (UInt32.lt_iff_toNat_lt.mp hc)), if_neg hwr,
      UInt32.toNat_toUInt64, UInt32.toNat_sub]
    omega

/-- Those of `rbuf_wcap` do if at most `cap` bytes are readable. -/
theorem wcapOf_toNat (cap r w : UInt32) (hfew : w.toNat ≤ cap.toNat + r.toNat) :
    (wcapOf cap r w).toNat = if w.toNat < r.toNat then r.toNat - w.toNat - 1
      else cap.toNat + r.toNat - w.toNat := by
  have hcap := cap.toNat_lt
  have hr := r.toNat_lt
  have hw := w.toNat_lt
  rw [wcapOf]
  -- Free bytes are counted differently before and after wpos has passed rpos.
  by_cases hwr : w.toNat < r.toNat
  · rw [if_pos (UInt32.lt_iff_toNat_lt.mpr hwr), if_pos hwr, UInt32.toNat_toUInt64,
      -- The guard keeps both subtractions in range, so neither wraps.
      UInt32.toNat_sub, UInt32.toNat_sub, UInt32.toNat_one]
    omega
  · rw [if_neg (fun hc => hwr (UInt32.lt_iff_toNat_lt.mp hc)), if_neg hwr,
      UInt32.toNat_toUInt64, UInt32.toNat_add, UInt32.toNat_sub]
    omega

/-- The positions `r` and `w` of a buffer of capacity `cap`, out of which `R`
    bytes have been read and into which `W` have been written. -/
structure Positions (cap : UInt32) (r w : UInt32) (R W : Nat) : Prop where
  cap_lt : cap.toNat + 1 < 2 ^ 32
  r_le : r.toNat ≤ cap.toNat + 1
  w_le : w.toNat ≤ cap.toNat + 1
  r_mod : r.toNat % (cap.toNat + 1) = R % (cap.toNat + 1)
  w_mod : w.toNat % (cap.toNat + 1) = W % (cap.toNat + 1)
  le : R ≤ W
  room : W < R + (cap.toNat + 1)
  turn : ¬ (r.toNat = 0 ∧ w.toNat = cap.toNat + 1)

theorem positions_distance (cap r w : UInt32) (R W : Nat) (h : Positions cap r w R W) :
    W - R = if w.toNat < r.toNat then cap.toNat + 1 + w.toNat - r.toNat
      else w.toNat - r.toNat := by
  by_cases hwr : w.toNat < r.toNat
  · rw [if_pos hwr]
    exact (distance_of_lt _ _ _ R W h.r_mod h.w_mod h.r_le h.le h.room hwr).symm
  · rw [if_neg hwr]
    exact (distance_of_le _ _ _ R W h.r_mod h.w_mod h.w_le h.le h.room (by omega) h.turn).symm

theorem positions_rcap (cap r w : UInt32) (R W : Nat) (h : Positions cap r w R W) :
    (rcapOf cap r w).toNat = W - R := by
  rw [positions_distance cap r w R W h, rcapOf_toNat cap r w h.r_le]

theorem positions_wcap (cap r w : UInt32) (R W : Nat) (h : Positions cap r w R W) :
    (wcapOf cap r w).toNat = cap.toNat - (W - R) := by
  have hdist := positions_distance cap r w R W h
  have hr := h.r_le
  have hw := h.w_le
  have hturn := h.turn
  rw [wcapOf_toNat cap r w (by omega)]
  split <;> split at hdist <;> omega

/-- A plan, its numbers read as natural numbers. -/
structure Plan.Is (plan : Plan) (cs : List Copy) (k p : Nat) : Prop where
  copies : plan.copies = cs
  ret : plan.ret.toNat = k
  pos : plan.pos.toNat = p

section AnyRequest

variable (cap r w : UInt32) (n : UInt64)

/-- A write in front of `rpos` takes the space between the positions. -/
theorem rbufWritePlan_between (hwr : w.toNat < r.toNat) :
    (rbufWritePlan cap r w n).Is
      [⟨w.toNat, 0, min (r.toNat - w.toNat - 1) (n.toNat % 2 ^ 32)⟩]
      (min (r.toNat - w.toNat - 1) (n.toNat % 2 ^ 32))
      (w.toNat + min (r.toNat - w.toNat - 1) (n.toNat % 2 ^ 32)) := by
  have hr := r.toNat_lt
  have hret := minSize_toNat (r - w - 1).toUInt64 n
  -- The wrap of r - w - 1 is taken out before the minimum is read back.
  rw [UInt32.toNat_toUInt64, UInt32.toNat_sub, UInt32.toNat_sub, UInt32.toNat_one,
    show (2 ^ 32 - 1 + (2 ^ 32 - w.toNat + r.toNat) % 2 ^ 32) % 2 ^ 32 % 2 ^ 32
      = r.toNat - w.toNat - 1 by omega] at hret
  rw [rbufWritePlan, if_pos (UInt32.lt_iff_toNat_lt.mpr hwr)]
  refine ⟨by simp only [hret], hret, ?_⟩
  -- The write position stays below r, so it needs no wrap.
  rw [advance_toNat, hret]
  omega

/-- A write that ends in the block, or at its end. -/
theorem rbufWritePlan_toEnd (hrw : r.toNat ≤ w.toNat) (hw : w.toNat ≤ cap.toNat + 1)
    (hend : n.toNat ≤ (cap.toNat + 1 - w.toNat) % 2 ^ 32) :
    (rbufWritePlan cap r w n).Is [⟨w.toNat, 0, n.toNat⟩] n.toNat
      ((w.toNat + n.toNat) % 2 ^ 32) := by
  -- hend says that the write fits in one go, so the plan has a single copy.
  have hret := minSize_toNat (cap - w + 1).toUInt64 n
  rw [toEnd_toNat cap w hw, show min ((cap.toNat + 1 - w.toNat) % 2 ^ 32 % 2 ^ 32)
    (n.toNat % 2 ^ 32) = n.toNat by omega] at hret
  have hwr : ¬ w < r := fun hlt => Nat.not_lt.mpr hrw (UInt32.lt_iff_toNat_lt.mp hlt)
  -- With the size met there is no second copy.
  have hmet : ¬ minSize (cap - w + 1).toUInt64 n < n := fun hlt => by
    rw [UInt64.lt_iff_toNat_lt] at hlt
    omega
  rw [rbufWritePlan, if_neg hwr]
  simp only [if_neg hmet]
  refine ⟨by rw [hret], hret, ?_⟩
  rw [advance_toNat, hret]

/-- A write that reaches the end of the block goes on at the beginning, with
    `rpos - 1` for a capacity. -/
theorem rbufWritePlan_around (hrw : r.toNat ≤ w.toNat) (hw : w.toNat ≤ cap.toNat + 1)
    (hend : (cap.toNat + 1 - w.toNat) % 2 ^ 32 < n.toNat) :
    ∃ a b, a = min ((cap.toNat + 1 - w.toNat) % 2 ^ 32) (n.toNat % 2 ^ 32) ∧
      b = min (r - 1).toNat ((n.toNat - a) % 2 ^ 32) ∧
      (rbufWritePlan cap r w n).Is [⟨w.toNat, 0, a⟩, ⟨0, a, b⟩] (a + b) b := by
  -- The first copy runs to the end of the data and the second from its start.
  have hret := minSize_toNat (cap - w + 1).toUInt64 n
  rcases minSize_rest (cap - w + 1).toUInt64 (r - 1).toUInt64 n with ⟨hrest, hsum⟩
  have hr := (r - 1).toNat_lt
  rw [toEnd_toNat cap w hw] at hret
  rw [UInt32.toNat_toUInt64, Nat.mod_eq_of_lt hr] at hrest
  have hwr : ¬ w < r := fun hlt => Nat.not_lt.mpr hrw (UInt32.lt_iff_toNat_lt.mp hlt)
  -- The size is not met by the first copy, so the second branch of rbuf_write is taken.
  have hmore : minSize (cap - w + 1).toUInt64 n < n := by
    rw [UInt64.lt_iff_toNat_lt]
    omega
  refine ⟨_, _, by rw [hret, Nat.mod_mod], hrest, ?_⟩
  rw [rbufWritePlan, if_neg hwr]
  simp only [if_pos hmore]
  refine ⟨by rw [hrest], by rw [hsum, hrest], ?_⟩
  rw [UInt64.toNat_toUInt32, hrest]
  omega

/-- A read up to `wpos`. -/
theorem rbufReadPlan_between (hrw : r.toNat ≤ w.toNat) :
    (rbufReadPlan cap r w n).Is [⟨0, r.toNat, min (w.toNat - r.toNat) (n.toNat % 2 ^ 32)⟩]
      (min (w.toNat - r.toNat) (n.toNat % 2 ^ 32))
      (r.toNat + min (w.toNat - r.toNat) (n.toNat % 2 ^ 32)) := by
  have hw := w.toNat_lt
  have hret := minSize_toNat (w - r).toUInt64 n
  rw [UInt32.toNat_toUInt64, UInt32.toNat_sub,
    show (2 ^ 32 - r.toNat + w.toNat) % 2 ^ 32 % 2 ^ 32 = w.toNat - r.toNat by omega] at hret
  have hwr : ¬ w < r := fun hlt => Nat.not_lt.mpr hrw (UInt32.lt_iff_toNat_lt.mp hlt)
  rw [rbufReadPlan, if_neg hwr]
  refine ⟨by simp only [hret], hret, ?_⟩
  rw [advance_toNat, hret]
  omega

/-- A read that ends in the block, or at its end. -/
theorem rbufReadPlan_toEnd (hwr : w.toNat < r.toNat) (hr : r.toNat ≤ cap.toNat + 1)
    -- The read fits before the end of the data, so the plan has one copy.
    (hend : r.toNat + n.toNat ≤ cap.toNat + 1) :
    (rbufReadPlan cap r w n).Is [⟨0, r.toNat, n.toNat⟩] n.toNat
      ((r.toNat + n.toNat) % 2 ^ 32) := by
  have hcap := cap.toNat_lt
  have hret := minSize_toNat (cap - r + 1).toUInt64 n
  rw [toEnd_toNat cap r hr, show min ((cap.toNat + 1 - r.toNat) % 2 ^ 32 % 2 ^ 32)
    (n.toNat % 2 ^ 32) = n.toNat by omega] at hret
  have hmet : ¬ minSize (cap - r + 1).toUInt64 n < n := fun hlt => by
    rw [UInt64.lt_iff_toNat_lt] at hlt
    omega
  -- As with a write: no second copy.
  rw [rbufReadPlan, if_pos (UInt32.lt_iff_toNat_lt.mpr hwr)]
  simp only [if_neg hmet]
  refine ⟨by rw [hret], hret, ?_⟩
  rw [advance_toNat, hret]

/-- A read that reaches the end of the block goes on at the beginning, up to
    `wpos`. -/
theorem rbufReadPlan_around (hwr : w.toNat < r.toNat) (hr : r.toNat ≤ cap.toNat + 1)
    (hend : cap.toNat + 1 < r.toNat + n.toNat) :
    ∃ a b, a = min (cap.toNat + 1 - r.toNat) (n.toNat % 2 ^ 32) ∧
      b = min w.toNat ((n.toNat - a) % 2 ^ 32) ∧
      (rbufReadPlan cap r w n).Is [⟨0, r.toNat, a⟩, ⟨a, 0, b⟩] (a + b) b := by
  have hcap := cap.toNat_lt
  have hw := w.toNat_lt
  have hret := minSize_toNat (cap - r + 1).toUInt64 n
  rcases minSize_rest (cap - r + 1).toUInt64 w.toUInt64 n with ⟨hrest, hsum⟩
  rw [toEnd_toNat cap r hr] at hret
  rw [UInt32.toNat_toUInt64, Nat.mod_eq_of_lt hw] at hrest
  have hmore : minSize (cap - r + 1).toUInt64 n < n := by
    -- The size asked for is not met by the first copy.
    rw [UInt64.lt_iff_toNat_lt]
    omega
  refine ⟨_, _, by rw [hret]; omega, hrest, ?_⟩
  rw [rbufReadPlan, if_pos (UInt32.lt_iff_toNat_lt.mpr hwr)]
  simp only [if_pos hmore]
  refine ⟨by rw [hrest], by rw [hsum, hrest], ?_⟩
  rw [UInt64.toNat_toUInt32, hrest]
  omega

end AnyRequest

section Branches

variable (cap r w : UInt32) (n : UInt64) (hcap : cap.toNat + 1 < 2 ^ 32) (hn : n.toNat < 2 ^ 32)

include hn

theorem rbufWritePlan_straight (hwr : w.toNat < r.toNat) :
    (rbufWritePlan cap r w n).Is [⟨w.toNat, 0, min (r.toNat - w.toNat - 1) n.toNat⟩]
      (min (r.toNat - w.toNat - 1) n.toNat) (w.toNat + min (r.toNat - w.toNat - 1) n.toNat) := by
  have hplan := rbufWritePlan_between cap r w n hwr
  rwa [Nat.mod_eq_of_lt hn] at hplan

include hcap

theorem rbufWritePlan_short (hrw : r.toNat ≤ w.toNat) (hend : w.toNat + n.toNat ≤ cap.toNat + 1) :
    (rbufWritePlan cap r w n).Is [⟨w.toNat, 0, n.toNat⟩] n.toNat (w.toNat + n.toNat) := by
  have hplan := rbufWritePlan_toEnd cap r w n hrw (by omega) (by omega)
  rwa [Nat.mod_eq_of_lt (by omega)] at hplan

theorem rbufWritePlan_turned (hrw : r.toNat ≤ w.toNat) (hw : w.toNat ≤ cap.toNat + 1)
    (hend : cap.toNat + 1 < w.toNat + n.toNat) :
    (rbufWritePlan cap r w n).Is
      [⟨w.toNat, 0, cap.toNat + 1 - w.toNat⟩,
        ⟨0, cap.toNat + 1 - w.toNat,
          min (r - 1).toNat (w.toNat + n.toNat - (cap.toNat + 1))⟩]
      (cap.toNat + 1 - w.toNat + min (r - 1).toNat (w.toNat + n.toNat - (cap.toNat + 1)))
      (min (r - 1).toNat (w.toNat + n.toNat - (cap.toNat + 1))) := by
  rcases rbufWritePlan_around cap r w n hrw hw (by omega) with ⟨a, b, ha, hb, hplan⟩
  have ha' : a = cap.toNat + 1 - w.toNat := by omega
  have hb' : b = min (r - 1).toNat (w.toNat + n.toNat - (cap.toNat + 1)) := by omega
  rwa [ha', hb'] at hplan

omit hcap

theorem rbufReadPlan_straight (hrw : r.toNat ≤ w.toNat) :
    (rbufReadPlan cap r w n).Is [⟨0, r.toNat, min (w.toNat - r.toNat) n.toNat⟩]
      (min (w.toNat - r.toNat) n.toNat) (r.toNat + min (w.toNat - r.toNat) n.toNat) := by
  have hplan := rbufReadPlan_between cap r w n hrw
  rwa [Nat.mod_eq_of_lt hn] at hplan

include hcap

theorem rbufReadPlan_short (hwr : w.toNat < r.toNat) (hend : r.toNat + n.toNat ≤ cap.toNat + 1) :
    (rbufReadPlan cap r w n).Is [⟨0, r.toNat, n.toNat⟩] n.toNat (r.toNat + n.toNat) := by
  have hplan := rbufReadPlan_toEnd cap r w n hwr (by omega) hend
  rwa [Nat.mod_eq_of_lt (by omega)] at hplan

theorem rbufReadPlan_turned (hwr : w.toNat < r.toNat) (hr : r.toNat ≤ cap.toNat + 1)
    (hend : cap.toNat + 1 < r.toNat + n.toNat) :
    (rbufReadPlan cap r w n).Is
      [⟨0, r.toNat, cap.toNat + 1 - r.toNat⟩,
        ⟨cap.toNat + 1 - r.toNat, 0, min w.toNat (r.toNat + n.toNat - (cap.toNat + 1))⟩]
      (cap.toNat + 1 - r.toNat + min w.toNat (r.toNat + n.toNat - (cap.toNat + 1)))
      (min w.toNat (r.toNat + n.toNat - (cap.toNat + 1))) := by
  rcases rbufReadPlan_around cap r w n hwr hr hend with ⟨a, b, ha, hb, hplan⟩
  have ha' : a = cap.toNat + 1 - r.toNat := by omega
  have hb' : b = min w.toNat (r.toNat + n.toNat - (cap.toNat + 1)) := by omega
  rwa [ha', hb'] at hplan

end Branches

/-- The plan covers `a` bytes from position `p` on and then `b` from the
    beginning of a block of `N`. It turns around only when `turns` holds and
    the request `n` was not met before the end. -/
structure Covers (N p n a b : Nat) (turns : Prop) (plan : Plan) : Prop where
  ret : plan.ret.toNat = a + b
  fits : p + a ≤ N
  turn : b = 0 ∧ plan.pos.toNat = p + a ∨ turns ∧ a < n ∧ p + a = N ∧ plan.pos.toNat = b

/-- The copies of a write that covers `a + b` bytes from position `p`. -/
def WriteCopies (p a b : Nat) (copies : List Copy) : Prop :=
  copies = [⟨p, 0, a⟩] ∧ b = 0 ∨ copies = [⟨p, 0, a⟩, ⟨0, a, b⟩]

/-- The copies of a read that covers `a + b` bytes from position `p`. -/
def ReadCopies (p a b : Nat) (copies : List Copy) : Prop :=
  copies = [⟨0, p, a⟩] ∧ b = 0 ∨ copies = [⟨0, p, a⟩, ⟨a, 0, b⟩]

theorem rbufWritePlan_covers (cap r w : UInt32) (n : UInt64) (hcap : cap.toNat + 1 < 2 ^ 32)
    (hr : r.toNat ≤ cap.toNat + 1) (hw : w.toNat ≤ cap.toNat + 1) (hn : n.toNat < 2 ^ 32)
    (hfit : r.toNat = 0 → w.toNat + n.toNat ≤ cap.toNat) :
    ∃ a b, Covers (cap.toNat + 1) w.toNat n.toNat a b (r.toNat ≤ w.toNat)
        (rbufWritePlan cap r w n) ∧
      WriteCopies w.toNat a b (rbufWritePlan cap r w n).copies ∧
      a + b = min n.toNat (if w.toNat < r.toNat then r.toNat - w.toNat - 1
        else cap.toNat + r.toNat - w.toNat) := by
  by_cases hwr : w.toNat < r.toNat
  · -- The free bytes are between the positions: one copy, no turn.
    rw [if_pos hwr]
    have hplan := rbufWritePlan_straight cap r w n hn hwr
    exact ⟨min (r.toNat - w.toNat - 1) n.toNat, 0,
      ⟨hplan.ret, by omega, Or.inl ⟨rfl, hplan.pos⟩⟩, Or.inl ⟨hplan.copies, rfl⟩, by omega⟩
  · rw [if_neg hwr]
    by_cases hend : w.toNat + n.toNat ≤ cap.toNat + 1
    · have hplan := rbufWritePlan_short cap r w n hcap hn (by omega) hend
      exact ⟨n.toNat, 0, ⟨hplan.ret, hend, Or.inl ⟨rfl, hplan.pos⟩⟩, Or.inl ⟨hplan.copies, rfl⟩,
        by omega⟩
    · have hplan := rbufWritePlan_turned cap r w n hcap hn (by omega) hw (by omega)
      -- The request is too large for `rpos = 0`, so `rpos - 1` is what it says.
      have hr1 : (r - 1).toNat = r.toNat - 1 := by
        rw [UInt32.toNat_sub, UInt32.toNat_one]
        omega
      rw [hr1] at hplan
      exact ⟨_, _, ⟨hplan.ret, by omega, Or.inr ⟨by omega, by omega, by omega, hplan.pos⟩⟩,
        Or.inr hplan.copies, by omega⟩

theorem rbufReadPlan_covers (cap r w : UInt32) (n : UInt64) (hcap : cap.toNat + 1 < 2 ^ 32)
    (hr : r.toNat ≤ cap.toNat + 1) (hw : w.toNat ≤ cap.toNat + 1) (hn : n.toNat < 2 ^ 32) :
    ∃ a b, Covers (cap.toNat + 1) r.toNat n.toNat a b (w.toNat < r.toNat)
        (rbufReadPlan cap r w n) ∧
      ReadCopies r.toNat a b (rbufReadPlan cap r w n).copies ∧
      a + b = min n.toNat (if w.toNat < r.toNat then cap.toNat + 1 + w.toNat - r.toNat
        else w.toNat - r.toNat) := by
  -- Either the data turns around, or it is one run and the plan is one copy.
  by_cases hwr : w.toNat < r.toNat
  · rw [if_pos hwr]
    by_cases hend : r.toNat + n.toNat ≤ cap.toNat + 1
    · have hplan := rbufReadPlan_short cap r w n hcap hn hwr hend
      exact ⟨n.toNat, 0, ⟨hplan.ret, hend, Or.inl ⟨rfl, hplan.pos⟩⟩, Or.inl ⟨hplan.copies, rfl⟩,
        by omega⟩
    · have hplan := rbufReadPlan_turned cap r w n hcap hn hwr hr (by omega)
      exact ⟨_, _, ⟨hplan.ret, by omega, Or.inr ⟨hwr, by omega, by omega, hplan.pos⟩⟩,
        Or.inr hplan.copies, by omega⟩
  · rw [if_neg hwr]
    have hplan := rbufReadPlan_straight cap r w n hn (by omega)
    exact ⟨min (w.toNat - r.toNat) n.toNat, 0,
      ⟨hplan.ret, by omega, Or.inl ⟨rfl, hplan.pos⟩⟩, Or.inl ⟨hplan.copies, rfl⟩, by omega⟩

/-- The second part of a plan that covers anything with it starts where the
    first ended, at the end of the block. -/
theorem covers_split (N p n a b : Nat) (turns : Prop) (plan : Plan)
    (h : Covers N p n a b turns plan) : b = 0 ∨ p + a = N := by
  rcases h.turn with ⟨hb, _⟩ | ⟨_, _, hend, _⟩
  · exact Or.inl hb
  · exact Or.inr hend

/-- A covering plan stores a position that stands for the advanced counter. -/
theorem covers_pos (N p n a b P : Nat) (turns : Prop) (plan : Plan)
    (h : Covers N p n a b turns plan) (hp : p % N = P % N) (hfew : a + b ≤ N) :
    plan.pos.toNat ≤ N ∧ plan.pos.toNat % N = (P + (a + b)) % N := by
  have hfits := h.fits
  -- Without a turn the position advances; with one it starts over.
  rcases h.turn with ⟨hb, hpos⟩ | ⟨_, _, hend, hpos⟩
  · refine ⟨by omega, ?_⟩
    rw [hpos, hb, Nat.add_zero, Nat.add_mod, hp, ← Nat.add_mod]
  · refine ⟨by omega, ?_⟩
    rw [hpos, Nat.add_mod P, ← hp, ← Nat.add_mod, ← Nat.add_assoc, hend, Nat.add_mod_left]

/-- A write of positions that stand for counters: it covers as many bytes as
    were asked for and are free, and leaves positions that stand for the
    counters afterwards. -/
theorem positions_write (cap r w : UInt32) (n : UInt64) (R W : Nat)
    (h : Positions cap r w R W) (hn : n.toNat < 2 ^ 32)
    (hfit : r.toNat = 0 → n.toNat ≤ (wcapOf cap r w).toNat) :
    ∃ a b, Covers (cap.toNat + 1) w.toNat n.toNat a b (r.toNat ≤ w.toNat)
        (rbufWritePlan cap r w n) ∧
      WriteCopies w.toNat a b (rbufWritePlan cap r w n).copies ∧
      a + b = min n.toNat (cap.toNat - (W - R)) ∧
      Positions cap r (rbufWritePlan cap r w n).pos R (W + (a + b)) := by
  have hdist := positions_distance cap r w R W h
  have hwcap := positions_wcap cap r w R W h
  have hle := h.le
  have hroom := h.room
  have hrle := h.r_le
  have hturn := h.turn
  -- With `rpos = 0` the room is what lies between `wpos` and the last byte.
  have hfit' : r.toNat = 0 → w.toNat + n.toNat ≤ cap.toNat := by
    intro hzero
    have hsmall := hfit hzero
    rw [hwcap, hdist, if_neg (by omega)] at hsmall
    have hwle := h.w_le
    omega
  rcases rbufWritePlan_covers cap r w n h.cap_lt h.r_le h.w_le hn hfit' with
    ⟨a, b, hcov, hcopies, hsum⟩
  have hmin : a + b = min n.toNat (cap.toNat - (W - R)) := by
    rw [hsum, hdist]
    split <;> omega
  have hpos := covers_pos _ _ _ a b W _ _ hcov h.w_mod (by omega)
  refine ⟨a, b, hcov, hcopies, hmin, ⟨h.cap_lt, h.r_le, hpos.1, h.r_mod, hpos.2, by omega,
    by omega, ?_⟩⟩
  -- With `rpos = 0` the request fits before the end, so it stops short of it.
  rintro ⟨hzero, hend⟩
  rcases hcov.turn with ⟨hb, hp⟩ | ⟨_, hlt, hfull, _⟩
  · omega
  · omega

/-- A read of positions that stand for counters. -/
theorem positions_read (cap r w : UInt32) (n : UInt64) (R W : Nat)
    (h : Positions cap r w R W) (hn : n.toNat < 2 ^ 32) :
    ∃ a b, Covers (cap.toNat + 1) r.toNat n.toNat a b (w.toNat < r.toNat)
        (rbufReadPlan cap r w n) ∧
      ReadCopies r.toNat a b (rbufReadPlan cap r w n).copies ∧
      a + b = min n.toNat (W - R) ∧
      Positions cap (rbufReadPlan cap r w n).pos w (R + (a + b)) W := by
  have hdist := positions_distance cap r w R W h
  have hle := h.le
  have hroom := h.room
  have hturn := h.turn
  rcases rbufReadPlan_covers cap r w n h.cap_lt h.r_le h.w_le hn with
    ⟨a, b, hcov, hcopies, hsum⟩
  have hmin : a + b = min n.toNat (W - R) := by rw [hsum, hdist]
  have hpos := covers_pos _ _ _ a b R _ _ hcov h.r_mod (by omega)
  refine ⟨a, b, hcov, hcopies, hmin, ⟨h.cap_lt, hpos.1, h.w_le, hpos.2, h.w_mod, by omega,
    by omega, ?_⟩⟩
  -- The position returns to zero only from zero, or in front of `wpos`.
  rintro ⟨hzero, hend⟩
  rcases hcov.turn with ⟨hb, hp⟩ | ⟨hlt, _, hfull, hp⟩
  · omega
  · omega

theorem runCopies_write (data src : Mem) (p a b : Nat) (copies : List Copy)
    (h : WriteCopies p a b copies) : runCopies data src copies = wrapIn data p src a b := by
  rcases h with ⟨hc, hb⟩ | hc
  · -- A second copy of no bytes changes nothing.
    rw [hc, hb]
    funext i
    simp only [runCopies, wrapIn]
    exact (blit_outside _ 0 0 i _ (by omega)).symm
  · rw [hc]
    rfl

theorem runCopies_read (dst data : Mem) (p a b : Nat) (copies : List Copy)
    (h : ReadCopies p a b copies) : runCopies dst data copies = wrapOut dst data p a b := by
  rcases h with ⟨hc, hb⟩ | hc
  · rw [hc, hb]
    funext i
    simp only [runCopies, wrapOut]
    exact (blit_outside _ a 0 i _ (by omega)).symm
  · rw [hc]
    rfl

/-- A copy of a covering write stays inside the block, and each slot it fills
    is one of the next slots of the stream. -/
theorem writeCopies_slot (N p n a b : Nat) (turns : Prop) (plan : Plan)
    (h : Covers N p n a b turns plan) (hfew : a + b ≤ N) (copies : List Copy)
    (hc : WriteCopies p a b copies) (c : Copy) (hmem : c ∈ copies) :
    c.dst + c.len ≤ N ∧ ∀ j, c.dst ≤ j → j < c.dst + c.len →
      ∃ k, k < a + b ∧ j = (p + k) % N := by
  have hfits := h.fits
  -- The first copy has not turned yet.
  have hfirst : ∀ j, p ≤ j → j < p + a → ∃ k, k < a + b ∧ j = (p + k) % N := by
    intro j hlo hhi
    refine ⟨j - p, by omega, ?_⟩
    rw [Nat.add_sub_cancel' hlo, Nat.mod_eq_of_lt (by omega)]
  rcases hc with ⟨hlist, hb⟩ | hlist
  · rw [hlist, List.mem_singleton] at hmem
    rw [hmem]
    exact ⟨hfits, hfirst⟩
  · rw [hlist, List.mem_cons, List.mem_singleton] at hmem
    rcases hmem with hmem | hmem
    · rw [hmem]
      exact ⟨hfits, hfirst⟩
    · rw [hmem]
      refine ⟨by simp only; omega, fun j _ hhi => ?_⟩
      simp only [Nat.zero_add] at hhi
      refine ⟨a + j, by omega, ?_⟩
      -- Only a call that reached the end has bytes at the beginning.
      have hend : p + a = N := (covers_split N p n a b turns plan h).resolve_left (by omega)
      rw [← Nat.add_assoc, hend, Nat.add_mod_left, Nat.mod_eq_of_lt (by omega)]

theorem readCopies_slot (N p n a b : Nat) (turns : Prop) (plan : Plan)
    (h : Covers N p n a b turns plan) (hfew : a + b ≤ N) (copies : List Copy)
    (hc : ReadCopies p a b copies) (c : Copy) (hmem : c ∈ copies) : c.src + c.len ≤ N := by
  have hfits := h.fits
  -- No copy reads past the end of the data.
  rcases hc with ⟨hlist, _⟩ | hlist
  · rw [hlist, List.mem_singleton] at hmem
    rw [hmem]
    exact hfits
  · rw [hlist, List.mem_cons, List.mem_singleton] at hmem
    rcases hmem with hmem | hmem
    · rw [hmem]
      exact hfits
    · rw [hmem]
      simp only
      omega

end Aircmn
