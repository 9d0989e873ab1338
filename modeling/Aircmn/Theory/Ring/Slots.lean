import Aircmn.Core.Ring
import Aircmn.Lib.Circular

/-!
# Slots of the Ring Array

The pieces of the ring operations in terms of counters: `R` elements have left
the ring since it was set up and `W` have entered it. `RingAt` says that the
header in memory describes a ring of a given geometry whose positions stand
for two counters, and `ringEntry` reads a slot. Each lemma below says what one
piece of an operation does to these two, so that no proof about a whole
operation or a thread looks at memory again.

A `RingGeom` carries the bound on the block size that the callers promise.
Under it no product of the source wraps, a slot lies inside the block, and two
slots are apart. The positions need less than that: they count right as soon
as the number of slots fits a word, whatever the size of the elements, and
`RingStands` is the part of `RingAt` that says so.

## Main definitions

* `RingGeom`: Element size and capacity of a block that fits 32 bits.
* `ringEntry`: The bytes of a slot.
* `RingAt`: The header of a ring at given counters.
* `RingStands`: The part of it that is about positions.

## Theorems

* `ringSlot_eq`: The address of a slot is the true product.
* `ringNelem_distance`: The occupied slots are the counters' difference.
* `ringStands_full_iff`, `ringStands_empty_iff`: The tests, on counters.
* `ringPushCopy_stands`, `ringPushStore_stands`, `ringSetRpos_stands`: What
  the pieces of the operations do to positions.
* `ringNelem_counts`, `ringFull_iff`, `ringEmpty_iff`: The same for a block
  that fits.
* `ringAt_setup`: A ring set up stands at zero.
* `ringAt_of_words`, `ringAt_congr`: What a header depends on.
* `ringPushCopy_at`, `ringPushCopy_entry`, `ringPushCopy_other`: The copy of a
  push fills the slot at `wpos` and nothing else.
* `ringPushStore_at`, `ringPushStore_entry`: The store of a push.
* `ringPopCopy_eq`: The copy of a pop reads the slot at `rpos`.
* `ringSetRpos_at`, `ringSetRpos_entry`: Storing a read position.
* `ringPopStore_at`: The store of a pop.
-/

namespace Aircmn

open Bytes Circular

/-- The element size and capacity of a ring whose block size fits 32 bits. -/
structure RingGeom where
  elemSize : Int32
  cap : UInt32
  pos : 0 < elemSize.toInt
  fits : ringHdrSize + elemBytes elemSize * (cap.toNat + 1) < 2 ^ 32

/-- The number of slots, one more than the capacity. -/
def RingGeom.slots (g : RingGeom) : Nat := g.cap.toNat + 1

/-- The number of bytes of a slot. -/
def RingGeom.width (g : RingGeom) : Nat := elemBytes g.elemSize

theorem RingGeom.slots_lt (g : RingGeom) : g.slots < 2 ^ 32 := by
  have hfits := g.fits
  have hpos := elemBytes_pos g.elemSize g.pos
  -- An element has at least a byte, so there are no more slots than bytes.
  have hmul : g.slots ≤ elemBytes g.elemSize * g.slots := Nat.le_mul_of_pos_left _ hpos
  unfold RingGeom.slots ringHdrSize at *
  omega

/-- The bytes of slot `i` of the ring at `r`. -/
def ringEntry (g : RingGeom) (m : Mem) (r i : Nat) : List UInt8 :=
  slice m (r + ringHdrSize + g.width * i) g.width

/-- The header at `r` is that of a ring out of which `R` elements have gone
    and into which `W` have come. -/
structure RingAt (g : RingGeom) (m : Mem) (r R W : Nat) : Prop where
  elemSize : ringElemSize m r = g.elemSize
  cap : ringCap m r = g.cap
  rpos : (ringRpos m r).toNat = R % g.slots
  wpos : (ringWpos m r).toNat = W % g.slots

theorem RingGeom.mod_lt (g : RingGeom) (x : Nat) : x % g.slots < g.slots :=
  Nat.mod_lt x (Nat.succ_pos _)

theorem ringSlot_eq (g : RingGeom) (m : Mem) (r R W : Nat) (pos : UInt32)
    (h : RingAt g m r R W) (hpos : pos.toNat < g.slots) :
    ringSlot m r pos = r + ringHdrSize + g.width * pos.toNat := by
  have hfits := g.fits
  have hin := cell_inside g.width pos.toNat g.slots hpos
  unfold RingGeom.width RingGeom.slots at hin
  unfold RingGeom.width
  rw [ringSlot, h.elemSize, mul_toNat_of_fits _ _ g.pos (by omega)]

/-- The capacity and the positions at `r` are those of a ring out of which `R`
    elements have gone and into which `W` have come, whatever its elements
    are. -/
structure RingStands (cap : UInt32) (m : Mem) (r R W : Nat) : Prop where
  cap_eq : ringCap m r = cap
  rpos : (ringRpos m r).toNat = R % (cap.toNat + 1)
  wpos : (ringWpos m r).toNat = W % (cap.toNat + 1)

theorem RingAt.stands (g : RingGeom) (m : Mem) (r R W : Nat) (h : RingAt g m r R W) :
    RingStands g.cap m r R W :=
  ⟨h.cap, h.rpos, h.wpos⟩

/-- The count the code computes from two positions is the difference of the
    counters they stand for. -/
theorem ringNelem_distance (cap rpos wpos : UInt32) (R W : Nat) (hcap : cap.toNat + 1 < 2 ^ 32)
    (hr : rpos.toNat = R % (cap.toNat + 1)) (hw : wpos.toNat = W % (cap.toNat + 1)) (hle : R ≤ W)
    (hroom : W < R + (cap.toNat + 1)) : (ringNelem rpos wpos cap).toNat = W - R := by
  have hrlt : R % (cap.toNat + 1) < cap.toNat + 1 := Nat.mod_lt R (Nat.succ_pos _)
  have hwlt : W % (cap.toNat + 1) < cap.toNat + 1 := Nat.mod_lt W (Nat.succ_pos _)
  rw [← hr] at hrlt
  rw [← hw] at hwlt
  have hrmod : rpos.toNat % (cap.toNat + 1) = R % (cap.toNat + 1) := by rw [hr, Nat.mod_mod]
  have hwmod : wpos.toNat % (cap.toNat + 1) = W % (cap.toNat + 1) := by rw [hw, Nat.mod_mod]
  unfold ringNelem
  -- The two cases of the code are the two cases of the distance; neither
  -- position is ever the number of slots, so the pair that reads wrongly does
  -- not occur.
  by_cases hrw : rpos.toNat ≤ wpos.toNat
  · rw [if_pos (UInt32.le_iff_toNat_le.mpr hrw), UInt32.toNat_sub]
    have hdist := distance_of_le (cap.toNat + 1) _ _ R W hrmod hwmod (by omega) hle hroom hrw
      (by omega)
    omega
  · rw [if_neg (fun hc => hrw (UInt32.le_iff_toNat_le.mp hc)), UInt32.toNat_add,
      UInt32.toNat_add, UInt32.toNat_sub, UInt32.toNat_one]
    have hdist := distance_of_lt (cap.toNat + 1) _ _ R W hrmod hwmod (by omega) hle hroom
      (by omega)
    omega

theorem ringNelem_counts (g : RingGeom) (rpos wpos : UInt32) (R W : Nat)
    (hr : rpos.toNat = R % g.slots) (hw : wpos.toNat = W % g.slots) (hle : R ≤ W)
    (hroom : W < R + g.slots) : (ringNelem rpos wpos g.cap).toNat = W - R :=
  ringNelem_distance g.cap rpos wpos R W g.slots_lt hr hw hle hroom

theorem ringStands_full_iff (cap : UInt32) (m : Mem) (r R W : Nat) (hcap : cap.toNat + 1 < 2 ^ 32)
    (h : RingStands cap m r R W) (hle : R ≤ W) (hroom : W < R + (cap.toNat + 1)) :
    ringFull m r = true ↔ W - R = cap.toNat := by
  have hcount := ringNelem_distance cap _ _ R W hcap h.rpos h.wpos hle hroom
  simp only [ringFull, h.cap_eq, beq_iff_eq, ← UInt32.toNat_inj, hcount]

theorem ringStands_empty_iff (cap : UInt32) (m : Mem) (r R W : Nat) (hcap : cap.toNat + 1 < 2 ^ 32)
    (h : RingStands cap m r R W) (hle : R ≤ W) (hroom : W < R + (cap.toNat + 1)) :
    ringEmpty m r = true ↔ W - R = 0 := by
  have hcount := ringNelem_distance cap _ _ R W hcap h.rpos h.wpos hle hroom
  simp only [ringEmpty, h.cap_eq, beq_iff_eq, ← UInt32.toNat_inj, hcount, UInt32.toNat_zero]

theorem ringFull_iff (g : RingGeom) (m : Mem) (r R W : Nat) (h : RingAt g m r R W)
    (hle : R ≤ W) (hroom : W < R + g.slots) : ringFull m r = true ↔ W - R = g.cap.toNat :=
  ringStands_full_iff g.cap m r R W g.slots_lt h.stands hle hroom

theorem ringEmpty_iff (g : RingGeom) (m : Mem) (r R W : Nat) (h : RingAt g m r R W)
    (hle : R ≤ W) (hroom : W < R + g.slots) : ringEmpty m r = true ↔ W - R = 0 :=
  ringStands_empty_iff g.cap m r R W g.slots_lt h.stands hle hroom

theorem ringSetup_stands (cap : UInt32) (elemSize : Int32) (m : Mem) (r : Nat) :
    RingStands cap (ringSetup m r cap elemSize) r 0 0 := by
  refine ⟨?_, ?_, ?_⟩
  all_goals simp (disch := omega) only [ringSetup, ringCap, ringRpos, ringWpos,
    load32_store32_of_disjoint, load32_store32_self, UInt32.toNat_zero, Nat.zero_mod]

/-- The next position stands for the next counter. -/
theorem next_position (cap pos : UInt32) (x : Nat) (hcap : cap.toNat + 1 < 2 ^ 32)
    (h : pos.toNat = x % (cap.toNat + 1)) :
    ((pos + 1) % (cap + 1)).toNat = (x + 1) % (cap.toNat + 1) := by
  have hlt : x % (cap.toNat + 1) < cap.toNat + 1 := Nat.mod_lt x (Nat.succ_pos _)
  have hslots : (cap + 1).toNat = cap.toNat + 1 := by
    rw [UInt32.toNat_add, UInt32.toNat_one]
    omega
  -- The sum stays below `2 ^ 32` before the remainder is taken.
  have hpos : (pos + 1).toNat = x % (cap.toNat + 1) + 1 := by
    rw [UInt32.toNat_add, UInt32.toNat_one, h]
    omega
  rw [UInt32.toNat_mod, hpos, hslots, Nat.mod_add_mod]

/-- The copy of a push goes behind the header, whatever the slot. -/
theorem ringPushCopy_header (m : Mem) (r off : Nat) (elem : Mem) (hoff : off + 4 ≤ ringHdrSize) :
    load32 (ringPushCopy m r elem) (r + off) = load32 m (r + off) := by
  have hslot : r + off + 4 ≤ ringSlot m r (ringWpos m r) := by
    unfold ringSlot
    omega
  rw [ringPushCopy, memcpy]
  exact load32_blit_of_disjoint m _ _ _ _ (Or.inr hslot)

theorem ringPushCopy_stands (cap : UInt32) (m : Mem) (r R W : Nat) (elem : Mem)
    (h : RingStands cap m r R W) : RingStands cap (ringPushCopy m r elem) r R W :=
  ⟨(ringPushCopy_header m r 4 elem (by decide)).trans h.cap_eq,
    (congrArg UInt32.toNat (ringPushCopy_header m r 8 elem (by decide))).trans h.rpos,
    (congrArg UInt32.toNat (ringPushCopy_header m r 12 elem (by decide))).trans h.wpos⟩

theorem ringPushStore_stands (cap : UInt32) (m : Mem) (r R W : Nat) (hcap : cap.toNat + 1 < 2 ^ 32)
    (h : RingStands cap m r R W) : RingStands cap (ringPushStore m r) r R (W + 1) := by
  have hnext := next_position cap (ringWpos m r) W hcap h.wpos
  refine ⟨(load32_store32_of_disjoint _ _ _ _ (by omega)).trans h.cap_eq, ?_, ?_⟩
  · rw [← h.rpos]
    exact congrArg UInt32.toNat (load32_store32_of_disjoint _ _ _ _ (by omega))
  · rw [← hnext, ← h.cap_eq]
    exact congrArg UInt32.toNat (load32_store32_self _ _ _)

theorem ringSetRpos_stands (cap : UInt32) (m : Mem) (r R W R' : Nat) (v : UInt32)
    (h : RingStands cap m r R W) (hv : v.toNat = R' % (cap.toNat + 1)) :
    RingStands cap (ringSetRpos m r v) r R' W := by
  refine ⟨(load32_store32_of_disjoint _ _ _ _ (by omega)).trans h.cap_eq, ?_, ?_⟩
  · rw [← hv]
    exact congrArg UInt32.toNat (load32_store32_self _ _ _)
  · rw [← h.wpos]
    exact congrArg UInt32.toNat (load32_store32_of_disjoint _ _ _ _ (by omega))

/-- A ring that stands at two counters, with elements of the right size. -/
theorem ringAt_of_stands (g : RingGeom) (m : Mem) (r R W : Nat)
    (helem : ringElemSize m r = g.elemSize) (h : RingStands g.cap m r R W) : RingAt g m r R W :=
  ⟨helem, h.cap_eq, h.rpos, h.wpos⟩

theorem ringAt_setup (g : RingGeom) (m : Mem) (r : Nat) :
    RingAt g (ringSetup m r g.cap g.elemSize) r 0 0 := by
  refine ringAt_of_stands g _ r 0 0 ?_ (ringSetup_stands g.cap g.elemSize m r)
  simp (disch := omega) only [ringSetup, ringElemSize, load32_store32_of_disjoint,
    load32_store32_self, Int32.toInt32_toUInt32]

/-- A header whose first two words are unchanged, with positions that stand
    for two counters. -/
theorem ringAt_of_words (g : RingGeom) (m m' : Mem) (r R W R' W' : Nat) (h : RingAt g m r R W)
    (helem : load32 m' r = load32 m r) (hcap : load32 m' (r + 4) = load32 m (r + 4))
    (hrpos : (ringRpos m' r).toNat = R' % g.slots)
    (hwpos : (ringWpos m' r).toNat = W' % g.slots) : RingAt g m' r R' W' :=
  ⟨(congrArg UInt32.toInt32 helem).trans h.elemSize, hcap.trans h.cap, hrpos, hwpos⟩

/-- An unchanged header. -/
theorem ringAt_congr (g : RingGeom) (m m' : Mem) (r R W : Nat) (h : RingAt g m r R W)
    (hword : ∀ off, off + 4 ≤ ringHdrSize → load32 m' (r + off) = load32 m (r + off)) :
    RingAt g m' r R W :=
  ringAt_of_words g m m' r R W R W h (hword 0 (by decide)) (hword 4 (by decide))
    ((congrArg UInt32.toNat (hword 8 (by decide))).trans h.rpos)
    ((congrArg UInt32.toNat (hword 12 (by decide))).trans h.wpos)

theorem ringCreate_eq (m : Mem) (r : Nat) (cap : UInt32) (elemSize : Int32) :
    ringCreate (some r) m cap elemSize = (some r, ringSetup m r cap elemSize) := rfl

theorem next_counts (g : RingGeom) (pos : UInt32) (x : Nat) (h : pos.toNat = x % g.slots) :
    ((pos + 1) % (g.cap + 1)).toNat = (x + 1) % g.slots :=
  next_position g.cap pos x g.slots_lt h

/-- The copy of a push goes to the slot at `wpos`, with the width of a slot. -/
theorem ringPushCopy_eq (g : RingGeom) (m : Mem) (r R W : Nat) (elem : Mem)
    (h : RingAt g m r R W) :
    ringPushCopy m r elem
      = memcpy m (r + ringHdrSize + g.width * (W % g.slots)) elem 0 g.width := by
  have hslot := ringSlot_eq g m r R W (ringWpos m r) h (by rw [h.wpos]; exact g.mod_lt W)
  rw [ringPushCopy, hslot, h.wpos, h.elemSize, sizeOfInt_of_pos _ g.pos]
  rfl

theorem ringPushCopy_at (g : RingGeom) (m : Mem) (r R W : Nat) (elem : Mem)
    (h : RingAt g m r R W) : RingAt g (ringPushCopy m r elem) r R W := by
  refine ringAt_of_stands g _ r R W ?_ (ringPushCopy_stands g.cap m r R W elem h.stands)
  rw [← h.elemSize]
  exact congrArg UInt32.toInt32 (ringPushCopy_header m r 0 elem (by decide))

theorem ringPushCopy_entry (g : RingGeom) (m : Mem) (r R W : Nat) (elem : Mem)
    (h : RingAt g m r R W) :
    ringEntry g (ringPushCopy m r elem) r (W % g.slots) = slice elem 0 g.width := by
  rw [ringPushCopy_eq g m r R W elem h]
  exact slice_memcpy_self m _ g.width elem 0

theorem ringPushCopy_other (g : RingGeom) (m : Mem) (r R W i : Nat) (elem : Mem)
    (h : RingAt g m r R W) (hi : i ≠ W % g.slots) :
    ringEntry g (ringPushCopy m r elem) r i = ringEntry g m r i := by
  rw [ringPushCopy_eq g m r R W elem h]
  have hapart := cells_disjoint g.width i (W % g.slots) hi
  exact slice_blit_of_disjoint _ _ _ _ _ _ (by omega)

/-- Storing a position leaves the slots alone. -/
theorem ringEntry_header (g : RingGeom) (m : Mem) (r i off : Nat) (v : UInt32)
    (hoff : off + 4 ≤ ringHdrSize) :
    ringEntry g (store32 m (r + off) v) r i = ringEntry g m r i :=
  slice_blit_of_disjoint _ _ _ _ _ _ (by omega)

theorem ringPushStore_at (g : RingGeom) (m : Mem) (r R W : Nat) (h : RingAt g m r R W) :
    RingAt g (ringPushStore m r) r R (W + 1) := by
  refine ringAt_of_stands g _ r R _ ?_ (ringPushStore_stands g.cap m r R W g.slots_lt h.stands)
  rw [← h.elemSize]
  exact congrArg UInt32.toInt32 (load32_store32_of_disjoint _ _ _ _ (by omega))

theorem ringPushStore_entry (g : RingGeom) (m : Mem) (r i : Nat) :
    ringEntry g (ringPushStore m r) r i = ringEntry g m r i :=
  ringEntry_header g m r i 12 _ (Nat.le_refl _)

theorem ringPopCopy_eq (g : RingGeom) (m : Mem) (r R W : Nat) (h : RingAt g m r R W) :
    ringPopCopy m r = ringEntry g m r (R % g.slots) := by
  have hslot := ringSlot_eq g m r R W (ringRpos m r) h (by rw [h.rpos]; exact g.mod_lt R)
  rw [ringPopCopy, hslot, h.rpos, h.elemSize, sizeOfInt_of_pos _ g.pos]
  rfl

theorem ringSetRpos_at (g : RingGeom) (m : Mem) (r R W R' : Nat) (v : UInt32)
    (h : RingAt g m r R W) (hv : v.toNat = R' % g.slots) :
    RingAt g (ringSetRpos m r v) r R' W := by
  refine ringAt_of_stands g _ r R' W ?_ (ringSetRpos_stands g.cap m r R W R' v h.stands hv)
  rw [← h.elemSize]
  exact congrArg UInt32.toInt32 (load32_store32_of_disjoint _ _ _ _ (by omega))

theorem ringSetRpos_entry (g : RingGeom) (m : Mem) (r i : Nat) (v : UInt32) :
    ringEntry g (ringSetRpos m r v) r i = ringEntry g m r i :=
  ringEntry_header g m r i 8 v (by unfold ringHdrSize; omega)

theorem ringPopStore_at (g : RingGeom) (m : Mem) (r R W : Nat) (h : RingAt g m r R W) :
    RingAt g (ringPopStore m r) r (R + 1) W := by
  refine ringSetRpos_at g m r R W (R + 1) _ h ?_
  rw [h.cap]
  exact next_counts g (ringRpos m r) R h.rpos

end Aircmn
