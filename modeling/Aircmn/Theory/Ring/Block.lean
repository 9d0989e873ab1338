import Aircmn.Theory.Ring.Slots

/-!
# The Block of a Ring

A ring inside a larger memory. The operations store only inside the block and
look only at the block. Nothing has to be known about which slots are
occupied: a position in range is always the position of some counter, and
`RingAt` at some pair of counters is all that the addresses depend on.

## Main definitions

* `RingGeom.bytes`: The size of the block.
* `RingPlaced`: The header of a ring at some counters.

## Theorems

* `ringPush_block`, `ringPop_block`, `ringFlush_block`: An operation keeps the
  header and stays in the block.
* `ringPush_local`, `ringPop_local`, `ringFlush_local`: Memories that agree on
  the block still do so after the same operation, and it answers alike.
-/

namespace Aircmn

open Bytes

/-- Header and slots. -/
def RingGeom.bytes (g : RingGeom) : Nat := ringHdrSize + g.width * g.slots

/-- The header at `r` is that of a ring of a given geometry. -/
def RingPlaced (g : RingGeom) (m : Mem) (r : Nat) : Prop := ∃ R W, RingAt g m r R W

theorem RingGeom.hdr_le (g : RingGeom) : ringHdrSize ≤ g.bytes :=
  Nat.le_add_right _ _

theorem RingGeom.slot_inside (g : RingGeom) (x : Nat) :
    ringHdrSize + g.width * (x % g.slots) + g.width ≤ g.bytes := by
  have hin := cell_inside g.width (x % g.slots) g.slots (g.mod_lt x)
  unfold RingGeom.bytes
  omega

theorem ringSetRpos_block (g : RingGeom) (m : Mem) (r : Nat) (v : UInt32) :
    SameOutside r (r + g.bytes) m (ringSetRpos m r v) := by
  have hhdr := g.hdr_le
  unfold ringHdrSize at hhdr
  exact sameOutside_blit _ _ m _ 4 _ (by omega) (by omega)

theorem ringPushStore_block (g : RingGeom) (m : Mem) (r : Nat) :
    SameOutside r (r + g.bytes) m (ringPushStore m r) := by
  have hhdr := g.hdr_le
  unfold ringHdrSize at hhdr
  exact sameOutside_blit _ _ m _ 4 _ (by omega) (by omega)

theorem ringPush_block (g : RingGeom) (m : Mem) (r : Nat) (elem : Mem) (h : RingPlaced g m r) :
    RingPlaced g (ringPush m r elem).2 r ∧
      SameOutside r (r + g.bytes) m (ringPush m r elem).2 := by
  rcases h with ⟨R, W, h⟩
  unfold ringPush
  by_cases hfull : ringFull m r = true
  -- Nothing is stored when the ring is full.
  · rw [if_pos hfull]
    exact ⟨⟨R, W, h⟩, sameOutside_refl _ _ m⟩
  · rw [if_neg hfull]
    -- A push stores an element in its slot and then the position, both in the block.
    have hin := g.slot_inside W
    have hcopy : SameOutside r (r + g.bytes) m (ringPushCopy m r elem) := by
      rw [ringPushCopy_eq g m r R W elem h]
      exact sameOutside_blit _ _ m _ _ _ (by omega) (by omega)
    exact ⟨⟨R, W + 1, ringPushStore_at g _ r R W (ringPushCopy_at g m r R W elem h)⟩,
      sameOutside_trans _ _ _ _ _ hcopy (ringPushStore_block g _ r)⟩

theorem ringPop_block (g : RingGeom) (m : Mem) (r : Nat) (elem : Bool) (h : RingPlaced g m r) :
    RingPlaced g (ringPop m r elem).2.2 r ∧
      SameOutside r (r + g.bytes) m (ringPop m r elem).2.2 := by
  rcases h with ⟨R, W, h⟩
  unfold ringPop
  by_cases hempty : ringEmpty m r = true
  · rw [if_pos hempty]
    exact ⟨⟨R, W, h⟩, sameOutside_refl _ _ m⟩
  · rw [if_neg hempty]
    exact ⟨⟨R + 1, W, ringPopStore_at g m r R W h⟩, ringSetRpos_block g m r _⟩

theorem ringFlush_block (g : RingGeom) (m : Mem) (r : Nat) (h : RingPlaced g m r) :
    RingPlaced g (ringFlush m r) r ∧ SameOutside r (r + g.bytes) m (ringFlush m r) := by
  rcases h with ⟨R, W, h⟩
  exact ⟨⟨W, W, ringSetRpos_at g m r R W W _ h h.wpos⟩, ringSetRpos_block g m r _⟩

section Local

variable (lo hi : Nat) (m m' : Mem) (r : Nat) (hsame : SameOn lo hi m m') (hlo : lo ≤ r)
  (hhi : r + ringHdrSize ≤ hi)

include hsame hlo hhi

theorem ringElemSize_local : ringElemSize m' r = ringElemSize m r :=
  congrArg UInt32.toInt32
    (load32_sameOn lo hi m m' _ hsame hlo (by unfold ringHdrSize at hhi; omega))

theorem ringCap_local : ringCap m' r = ringCap m r :=
  load32_sameOn lo hi m m' _ hsame (by omega) (by unfold ringHdrSize at hhi; omega)

theorem ringRpos_local : ringRpos m' r = ringRpos m r :=
  load32_sameOn lo hi m m' _ hsame (by omega) (by unfold ringHdrSize at hhi; omega)

theorem ringWpos_local : ringWpos m' r = ringWpos m r :=
  load32_sameOn lo hi m m' _ hsame (by omega) (by unfold ringHdrSize at hhi; omega)

theorem ringSlot_local (pos : UInt32) : ringSlot m' r pos = ringSlot m r pos := by
  rw [ringSlot, ringSlot, ringElemSize_local lo hi m m' r hsame hlo hhi]

theorem ringFull_local : ringFull m' r = ringFull m r := by
  simp only [ringFull, ringRpos_local lo hi m m' r hsame hlo hhi,
    ringWpos_local lo hi m m' r hsame hlo hhi, ringCap_local lo hi m m' r hsame hlo hhi]

theorem ringEmpty_local : ringEmpty m' r = ringEmpty m r := by
  simp only [ringEmpty, ringRpos_local lo hi m m' r hsame hlo hhi,
    ringWpos_local lo hi m m' r hsame hlo hhi, ringCap_local lo hi m m' r hsame hlo hhi]

theorem ringPush_local (elem : Mem) :
    (ringPush m' r elem).1 = (ringPush m r elem).1 ∧
      SameOn lo hi (ringPush m r elem).2 (ringPush m' r elem).2 := by
  have hcopy : SameOn lo hi (ringPushCopy m r elem) (ringPushCopy m' r elem) := by
    rw [ringPushCopy, ringPushCopy, ringWpos_local lo hi m m' r hsame hlo hhi,
      ringSlot_local lo hi m m' r hsame hlo hhi, ringElemSize_local lo hi m m' r hsame hlo hhi]
    exact sameOn_blit lo hi m m' _ _ _ hsame
  -- The test reads only the ring's own fields, so both memories answer alike.
  unfold ringPush
  rw [ringFull_local lo hi m m' r hsame hlo hhi]
  by_cases hfull : ringFull m r = true
  · rw [if_pos hfull, if_pos hfull]
    exact ⟨rfl, hsame⟩
  -- The two stores go to the same addresses, which lie in the range.
  · rw [if_neg hfull, if_neg hfull]
    refine ⟨rfl, ?_⟩
    simp only [ringPushStore, ringWpos_local lo hi _ _ r hcopy hlo hhi,
      ringCap_local lo hi _ _ r hcopy hlo hhi]
    exact sameOn_blit lo hi _ _ _ _ _ hcopy

theorem ringPopStore_local : SameOn lo hi (ringPopStore m r) (ringPopStore m' r) := by
  rw [ringPopStore, ringPopStore, ringRpos_local lo hi m m' r hsame hlo hhi,
    ringCap_local lo hi m m' r hsame hlo hhi]
  exact sameOn_blit lo hi m m' _ _ _ hsame

theorem ringFlush_local : SameOn lo hi (ringFlush m r) (ringFlush m' r) := by
  simp only [ringFlush, ringWpos_local lo hi m m' r hsame hlo hhi]
  exact sameOn_blit lo hi m m' _ _ _ hsame

/-- The bytes a pop delivers are in the block too. -/
theorem ringPop_local (g : RingGeom) (elem : Bool) (h : RingPlaced g m r)
    (hblock : r + g.bytes ≤ hi) :
    (ringPop m' r elem).1 = (ringPop m r elem).1 ∧
      (ringPop m' r elem).2.1 = (ringPop m r elem).2.1 ∧
      SameOn lo hi (ringPop m r elem).2.2 (ringPop m' r elem).2.2 := by
  rcases h with ⟨R, W, h⟩
  have hin := g.slot_inside R
  -- The same element stands in the slot in both memories.
  have hbytes : ringPopCopy m' r = ringPopCopy m r := by
    have hslot := ringSlot_eq g m r R W (ringRpos m r) h (by rw [h.rpos]; exact g.mod_lt R)
    rw [ringPopCopy, ringPopCopy, ringRpos_local lo hi m m' r hsame hlo hhi,
      ringSlot_local lo hi m m' r hsame hlo hhi, ringElemSize_local lo hi m m' r hsame hlo hhi,
      hslot, h.rpos, h.elemSize, sizeOfInt_of_pos _ g.pos]
    unfold RingGeom.width at *
    exact slice_sameOn lo hi m m' _ _ hsame (by omega) (by omega)
  unfold ringPop
  rw [ringEmpty_local lo hi m m' r hsame hlo hhi, hbytes]
  -- An empty ring stores nothing, in either memory.
  by_cases hempty : ringEmpty m r = true
  · rw [if_pos hempty, if_pos hempty]
    exact ⟨rfl, rfl, hsame⟩
  · rw [if_neg hempty, if_neg hempty]
    exact ⟨rfl, rfl, ringPopStore_local lo hi m m' r hsame hlo hhi⟩

end Local

end Aircmn
