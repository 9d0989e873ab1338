import Aircmn.Theory.Array.Slots

/-!
# The Block of an Array

An array inside a larger memory. The operations store only inside the block
and look only at the block, whatever the slots hold and whichever of them were
stored by index. `ArrayAt` is what they need for that, a header that describes
the block.

## Main definitions

* `ArrayGeom.bytes`: The size of the block.
* `ArrayAt`: The header of an array.

## Theorems

* `arrayAt_congr`: What a header depends on.
* `arrayPush_block`, `arrayPop_block`, `arrayAdd_block`: An operation keeps
  the header and stays in the block.
* `arrayPush_local`, `arrayPop_local`, `arrayAdd_local`: Memories that agree
  on the block still do so after the same operation, and it answers alike.
-/

namespace Aircmn

open Bytes

/-- Header and slots. -/
def ArrayGeom.bytes (g : ArrayGeom) : Nat := arrayHdrSize + g.width * g.n.toNat

/-- The header at `a` is that of an array of a given geometry. -/
structure ArrayAt (g : ArrayGeom) (m : Mem) (a : Nat) : Prop where
  size : arraySize m a = g.size
  nalloc : arrayNalloc m a = g.n
  nelem_le : (arrayNelem m a).toNat ≤ g.n.toNat

theorem ArrayGeom.hdr_le (g : ArrayGeom) : arrayHdrSize ≤ g.bytes :=
  Nat.le_add_right _ _

theorem ArrayGeom.slot_inside (g : ArrayGeom) (i : Nat) (h : i < g.n.toNat) :
    arrayHdrSize + g.width * i + g.width ≤ g.bytes := by
  have hin := cell_inside g.width i g.n.toNat h
  unfold ArrayGeom.bytes
  omega

/-- An unchanged header. -/
theorem arrayAt_congr (g : ArrayGeom) (m m' : Mem) (a : Nat) (h : ArrayAt g m a)
    (hword : ∀ off, off + 4 ≤ arrayHdrSize → load32 m' (a + off) = load32 m (a + off)) :
    ArrayAt g m' a := by
  have hnelem : arrayNelem m' a = arrayNelem m a := hword 0 (by decide)
  exact ⟨(congrArg UInt32.toInt32 (hword 8 (by decide))).trans h.size,
    (hword 4 (by decide)).trans h.nalloc, by rw [hnelem]; exact h.nelem_le⟩

/-- Storing a count that is in range. -/
theorem arraySetNelem_at (g : ArrayGeom) (m : Mem) (a : Nat) (nelem : UInt32)
    (h : ArrayAt g m a) (hle : nelem.toNat ≤ g.n.toNat) :
    ArrayAt g (arraySetNelem m a nelem) a :=
  ⟨by simp [h.size], by simp [h.nalloc], by simpa using hle⟩

theorem arraySetNelem_block (g : ArrayGeom) (m : Mem) (a : Nat) (nelem : UInt32) :
    SameOutside a (a + g.bytes) m (arraySetNelem m a nelem) := by
  have hhdr := g.hdr_le
  unfold arrayHdrSize at hhdr
  exact sameOutside_blit _ _ m a 4 _ (Nat.le_refl a) (by omega)

theorem arrayCopy_at (g : ArrayGeom) (m : Mem) (a : Nat) (elem : Mem) (idx : UInt32)
    (h : ArrayAt g m a) (hidx : idx.toNat < g.n.toNat) :
    ArrayAt g (arrayCopy m a elem idx) a :=
  arrayAt_congr g m _ a h
    (fun off hoff => arrayCopy_word g m a elem idx off h.size (Nat.le_of_lt hidx) hoff)

theorem arrayCopy_block (g : ArrayGeom) (m : Mem) (a : Nat) (elem : Mem) (idx : UInt32)
    (h : ArrayAt g m a) (hidx : idx.toNat < g.n.toNat) :
    SameOutside a (a + g.bytes) m (arrayCopy m a elem idx) := by
  have hin := g.slot_inside idx.toNat hidx
  rw [arrayCopy_eq g m a elem idx h.size (Nat.le_of_lt hidx)]
  exact sameOutside_blit _ _ m _ _ _ (by omega) (by omega)

theorem arrayPush_block (g : ArrayGeom) (m : Mem) (a : Nat) (elem : Mem) (h : ArrayAt g m a) :
    ArrayAt g (arrayPush m a elem).2 a ∧ SameOutside a (a + g.bytes) m (arrayPush m a elem).2 := by
  unfold arrayPush
  by_cases hfull : arrayNelem m a = arrayNalloc m a
  · rw [if_pos (beq_iff_eq.mpr hfull)]
    exact ⟨h, sameOutside_refl _ _ m⟩
  · rw [if_neg (fun hc => hfull (beq_iff_eq.mp hc))]
    -- The count is in range and is not the capacity.
    have hlt : (arrayNelem m a).toNat < g.n.toNat := by
      refine Nat.lt_of_le_of_ne h.nelem_le (fun hc => hfull ?_)
      rw [h.nalloc]
      exact UInt32.toNat_inj.mp hc
    have hcopy := arrayCopy_at g m a elem _ h hlt
    have hnext : (arrayNelem m a + 1).toNat ≤ g.n.toNat := by
      rw [UInt32.toNat_add, UInt32.toNat_one]
      exact Nat.le_trans (Nat.mod_le _ _) hlt
    simp only [arrayCopy_nelem g m a elem _ h.size (Nat.le_of_lt hlt)]
    exact ⟨arraySetNelem_at g _ a _ hcopy hnext,
      sameOutside_trans _ _ _ _ _ (arrayCopy_block g m a elem _ h hlt)
        (arraySetNelem_block g _ a _)⟩

theorem arrayPop_block (g : ArrayGeom) (m : Mem) (a : Nat) (h : ArrayAt g m a)
    (hne : arrayNelem m a ≠ 0) :
    ArrayAt g (arrayPop m a).2 a ∧ SameOutside a (a + g.bytes) m (arrayPop m a).2 ∧
      ∃ i, i < g.n.toNat ∧ (arrayPop m a).1 = a + arrayHdrSize + g.width * i := by
  -- There is an element, so the count can go down by one without wrapping.
  have hle := h.nelem_le
  have hpos : 0 < (arrayNelem m a).toNat := by
    refine Nat.pos_of_ne_zero (fun hc => hne ?_)
    rw [← UInt32.toNat_inj, hc, UInt32.toNat_zero]
  have hprev : (arrayNelem m a - 1).toNat = (arrayNelem m a).toNat - 1 :=
    UInt32.toNat_sub_of_le _ _ (by rw [UInt32.le_iff_toNat_le, UInt32.toNat_one]; exact hpos)
  have hset := arraySetNelem_at g m a (arrayNelem m a - 1) h (by omega)
  -- The address is that of the slot that is popped, with the count already lowered.
  refine ⟨hset, arraySetNelem_block g m a _, (arrayNelem m a - 1).toNat, by omega, ?_⟩
  simp only [arrayPop, arraySetNelem_nelem]
  exact arraySlot_eq g _ a _ hset.size (by omega)

theorem arrayAdd_block (g : ArrayGeom) (m : Mem) (a : Nat) (elem : Mem) (idx : UInt32)
    (h : ArrayAt g m a) (hidx : idx ≤ g.n) :
    ArrayAt g (arrayAdd m a elem idx).2 a ∧
      SameOutside a (a + g.bytes) m (arrayAdd m a elem idx).2 := by
  by_cases hend : idx = arrayNalloc m a
  · rw [arrayAdd_end m a elem idx hend]
    exact ⟨h, sameOutside_refl _ _ m⟩
  · rw [arrayAdd_other m a elem idx hend]
    -- The one index in range that has no slot of its own is refused.
    have hlt : idx.toNat < g.n.toNat := by
      refine Nat.lt_of_le_of_ne (UInt32.le_iff_toNat_le.mp hidx) (fun hc => hend ?_)
      rw [h.nalloc]
      exact UInt32.toNat_inj.mp hc
    exact ⟨arrayCopy_at g m a elem idx h hlt, arrayCopy_block g m a elem idx h hlt⟩

section Local

variable (lo hi : Nat) (m m' : Mem) (a : Nat) (hsame : SameOn lo hi m m') (hlo : lo ≤ a)
  (hhi : a + arrayHdrSize ≤ hi)

include hsame hlo hhi

theorem arrayNelem_local : arrayNelem m' a = arrayNelem m a :=
  load32_sameOn lo hi m m' a hsame hlo (by unfold arrayHdrSize at hhi; omega)

theorem arrayNalloc_local : arrayNalloc m' a = arrayNalloc m a :=
  load32_sameOn lo hi m m' _ hsame (by omega) (by unfold arrayHdrSize at hhi; omega)

theorem arraySize_local : arraySize m' a = arraySize m a :=
  congrArg UInt32.toInt32
    (load32_sameOn lo hi m m' _ hsame (by omega) (by unfold arrayHdrSize at hhi; omega))

theorem arraySlot_local (idx : UInt32) : arraySlot m' a idx = arraySlot m a idx := by
  rw [arraySlot, arraySlot, arraySize_local lo hi m m' a hsame hlo hhi]

theorem arrayCopy_local (elem : Mem) (idx : UInt32) :
    SameOn lo hi (arrayCopy m a elem idx) (arrayCopy m' a elem idx) := by
  rw [arrayCopy, arrayCopy, arraySlot_local lo hi m m' a hsame hlo hhi,
    arraySize_local lo hi m m' a hsame hlo hhi]
  exact sameOn_blit lo hi m m' _ _ _ hsame

theorem arrayPush_local (elem : Mem) :
    (arrayPush m' a elem).1 = (arrayPush m a elem).1 ∧
      SameOn lo hi (arrayPush m a elem).2 (arrayPush m' a elem).2 := by
  -- The count that is stored is read again after the copy.
  have hcopy := arrayCopy_local lo hi m m' a hsame hlo hhi elem (arrayNelem m a)
  have hnelem := arrayNelem_local lo hi _ _ a hcopy hlo hhi
  unfold arrayPush
  rw [arrayNelem_local lo hi m m' a hsame hlo hhi, arrayNalloc_local lo hi m m' a hsame hlo hhi]
  by_cases hfull : (arrayNelem m a == arrayNalloc m a) = true
  · rw [if_pos hfull, if_pos hfull]
    exact ⟨rfl, hsame⟩
  · rw [if_neg hfull, if_neg hfull]
    simp only [hnelem]
    exact ⟨trivial, sameOn_blit lo hi _ _ _ _ _ hcopy⟩

theorem arrayPop_local :
    (arrayPop m' a).1 = (arrayPop m a).1 ∧ SameOn lo hi (arrayPop m a).2 (arrayPop m' a).2 := by
  have hset : SameOn lo hi (arrayPop m a).2 (arrayPop m' a).2 := by
    simp only [arrayPop, arrayNelem_local lo hi m m' a hsame hlo hhi]
    exact sameOn_blit lo hi m m' _ _ _ hsame
  refine ⟨?_, hset⟩
  exact (arraySlot_local lo hi _ _ a hset hlo hhi _).trans
    (congrArg _ (arrayNelem_local lo hi _ _ a hset hlo hhi))

theorem arrayAdd_local (elem : Mem) (idx : UInt32) :
    (arrayAdd m' a elem idx).1 = (arrayAdd m a elem idx).1 ∧
      SameOn lo hi (arrayAdd m a elem idx).2 (arrayAdd m' a elem idx).2 := by
  unfold arrayAdd
  rw [arrayNalloc_local lo hi m m' a hsame hlo hhi]
  by_cases hend : (idx == arrayNalloc m a) = true
  · rw [if_pos hend, if_pos hend]
    exact ⟨rfl, hsame⟩
  · rw [if_neg hend, if_neg hend]
    exact ⟨rfl, arrayCopy_local lo hi m m' a hsame hlo hhi elem idx⟩

end Local

end Aircmn
