import Aircmn.Core.Array
import Aircmn.Core.Ring

/-!
# Sizes of Blocks

A ring and an array are each given their block in two ways, by a function that
allocates it and by one that sets it up where the caller has made room for it.
The size is computed by `ring_alloc_size`, by the same expression in
`ring_create`, by `array_alloc_size`, and by another expression in
`array_create`. None of them checks its product, and neither do the operations
check the product that addresses a slot.

A block is sound if it is as large as the header and the slots it is used for,
as natural numbers, and the slots lie in it and do not overlap. For each of the
four the exact condition is that what is computed does not wrap. The two
containers differ in it: `array_create` multiplies by the number of slots and
adds the header in `size_t`, the others multiply by one more and add the
header in 32 bits.

The largest capacity of a ring deserves a word. Its number of slots is zero as
a `uint32_t`, so the block is a header, and the positions are taken modulo
zero.

## Main definitions

* `BlockSound`: The slots lie in their block and do not overlap.
* `RingSound`, `ArraySound`: The same of a ring and of an array.

## Theorems

* `blockSound_of_slots`: Slots at their true offsets.
* `ringSound_iff`: When a ring's block is sound.
* `arraySound_create_iff`, `arraySound_setup_iff`: When an array's is.
* `block_sizes_iff`: All four.
* `block_sizes_small`: Blocks of four-byte elements.
* `block_sizes_wrap`: Blocks that are too small.
-/

namespace Aircmn

open Bytes

/-- A block of `size` bytes at `base` has room for a header and `slots` slots
    of `width` bytes, and slot `i`, which is used at `slot i`, lies in it and
    apart from the others. -/
structure BlockSound (base size hdr width slots : Nat) (slot : Nat → Nat) : Prop where
  room : hdr + width * slots ≤ size
  inside : ∀ i, i < slots → base + hdr ≤ slot i ∧ slot i + width ≤ base + size
  apart : ∀ i j, i < slots → j < slots → i ≠ j →
    slot i + width ≤ slot j ∨ slot j + width ≤ slot i

theorem blockSound_of_slots (base size hdr width slots : Nat) (slot : Nat → Nat)
    (hroom : hdr + width * slots ≤ size)
    (hslot : ∀ i, i < slots → slot i = base + hdr + width * i) :
    BlockSound base size hdr width slots slot := by
  refine ⟨hroom, fun i hi => ?_, fun i j hi hj hij => ?_⟩
  · have hin := cell_inside width i slots hi
    rw [hslot i hi]
    omega
  · have hapart := cells_disjoint width i j hij
    rw [hslot i hi, hslot j hj]
    omega

/-- The product that addresses a slot is the true one if all the slots fit 32
    bits. -/
theorem slot_product (size : Int32) (slots i : Nat) (hpos : 0 < size.toInt) (hi : i < slots)
    (hfits : elemBytes size * slots < 2 ^ 32) :
    (size.toUInt32 * UInt32.ofNat i).toNat = elemBytes size * i := by
  have hin := cell_inside (elemBytes size) i slots hi
  have hpos' := elemBytes_pos size hpos
  have hle : i ≤ elemBytes size * i := Nat.le_mul_of_pos_left i hpos'
  have hidx : (UInt32.ofNat i).toNat = i := by
    rw [UInt32.toNat_ofNat', Nat.mod_eq_of_lt (by omega)]
  rw [mul_toNat_of_fits size _ hpos (by rw [hidx]; omega), hidx]

/-- The product that both `ring_alloc_size` and `array_alloc_size` compute. -/
theorem next_product (n : UInt32) (size : Int32) (hpos : 0 < size.toInt) :
    (size.toUInt32 * (n + 1)).toNat
      = elemBytes size * ((n.toNat + 1) % 2 ^ 32) % 2 ^ 32 := by
  rw [UInt32.toNat_mul, toUInt32_toNat_of_pos size hpos, UInt32.toNat_add, UInt32.toNat_one]

/-- A number of slots that fits 32 bits with elements of at least a byte. -/
theorem slots_lt (size : Int32) (slots : Nat) (hpos : 0 < size.toInt)
    (hfits : 16 + elemBytes size * slots < 2 ^ 32) : slots < 2 ^ 32 := by
  have hle : slots ≤ elemBytes size * slots :=
    Nat.le_mul_of_pos_left slots (elemBytes_pos size hpos)
  omega

/-- The size of a ring's block when nothing wraps. -/
theorem ringAllocSize_toNat (cap : UInt32) (size : Int32) (hpos : 0 < size.toInt)
    (hfits : 16 + elemBytes size * (cap.toNat + 1) < 2 ^ 32) :
    (ringAllocSize cap size).toNat = 16 + elemBytes size * (cap.toNat + 1) := by
  have hslots := slots_lt size _ hpos hfits
  rw [ringAllocSize, UInt64.toNat_toUInt32, UInt64.toNat_add, UInt32.toNat_toUInt64,
    next_product cap size hpos, Nat.mod_eq_of_lt hslots,
    Nat.mod_eq_of_lt (show elemBytes size * (cap.toNat + 1) < 2 ^ 32 by omega),
    show (16 : UInt64).toNat = 16 from rfl]
  omega

theorem ringSetup_elemSize (m : Mem) (r : Nat) (cap : UInt32) (size : Int32) :
    ringElemSize (ringSetup m r cap size) r = size := by
  simp (disch := omega) [ringElemSize, ringSetup, load32_store32_of_disjoint]

theorem arraySetup_elemSize (m : Mem) (a : Nat) (n : UInt32) (size : Int32) :
    arraySize (arraySetup m a n size) a = size := by
  simp (disch := omega) [arraySize, arraySetup, load32_store32_of_disjoint]

/-- The block of the ring at `r`, and the modulus its positions advance by. -/
structure RingSound (bytes : Nat) (m : Mem) (r : Nat) (cap : UInt32) (size : Int32) : Prop where
  block : BlockSound r bytes ringHdrSize (elemBytes size) (cap.toNat + 1)
    (fun i => ringSlot m r (UInt32.ofNat i))
  modulus : cap + 1 ≠ 0

theorem ringSound_iff (m : Mem) (r : Nat) (cap : UInt32) (size : Int32) (hpos : 0 < size.toInt) :
    RingSound (ringAllocSize cap size).toNat (ringSetup m r cap size) r cap size
      -- The check of the sizes is necessary and enough for a sound block.
      ↔ 16 + elemBytes size * (cap.toNat + 1) < 2 ^ 32 := by
  constructor
  · -- The size has 32 bits, and the block is no larger than it.
    intro hsound
    exact Nat.lt_of_le_of_lt hsound.block.room (ringAllocSize cap size).toNat_lt
  · intro hfits
    -- With the sizes in 32 bits no slot wraps and none leaves the block.
    have hslots := slots_lt size _ hpos hfits
    refine ⟨blockSound_of_slots _ _ _ _ _ _ ?_ (fun i hi => ?_), fun hzero => ?_⟩
    · rw [ringAllocSize_toNat cap size hpos hfits]
      exact Nat.le_refl _
    · rw [ringSlot, ringSetup_elemSize, slot_product size _ i hpos hi (by omega)]
    -- The capacity plus one is not 0, which it would be only at 2 ^ 32.
    · have hnat := congrArg UInt32.toNat hzero
      rw [UInt32.toNat_add, UInt32.toNat_one, UInt32.toNat_zero] at hnat
      omega

/-- The block of the array at `a`. -/
def ArraySound (bytes : Nat) (m : Mem) (a : Nat) (n : UInt32) (size : Int32) : Prop :=
  BlockSound a bytes arrayHdrSize (elemBytes size) n.toNat
    (fun i => arraySlot m a (UInt32.ofNat i))

theorem arraySound_of_room (bytes : Nat) (m : Mem) (a : Nat) (n : UInt32) (size : Int32)
    (hpos : 0 < size.toInt) (hfits : elemBytes size * n.toNat < 2 ^ 32)
    (hroom : 16 + elemBytes size * n.toNat ≤ bytes) :
    ArraySound bytes (arraySetup m a n size) a n size := by
  refine blockSound_of_slots _ _ _ _ _ _ hroom (fun i hi => ?_)
  rw [arraySlot, arraySetup_elemSize, slot_product size _ i hpos hi hfits]

theorem arraySound_create_iff (m : Mem) (a : Nat) (n : UInt32) (size : Int32)
    (hpos : 0 < size.toInt) :
    ArraySound (arrayCreateSize n size).toNat (arraySetup m a n size) a n size
      ↔ elemBytes size * n.toNat < 2 ^ 32 := by
  -- The structure is four bytes longer than the header.
  have hbytes : (arrayCreateSize n size).toNat = 20 + elemBytes size * n.toNat % 2 ^ 32 := by
    rw [arrayCreateSize, UInt64.toNat_add, UInt32.toNat_toUInt64, UInt32.toNat_mul,
      toUInt32_toNat_of_pos size hpos, Nat.mul_comm n.toNat, show (20 : UInt64).toNat = 20 from rfl]
    omega
  constructor
  · intro hsound
    have hroom := hsound.room
    unfold arrayHdrSize at hroom
    omega
  · intro hfits
    refine arraySound_of_room _ m a n size hpos hfits ?_
    rw [hbytes, Nat.mod_eq_of_lt hfits]
    omega

theorem arraySound_setup_iff (m : Mem) (a : Nat) (n : UInt32) (size : Int32)
    (hpos : 0 < size.toInt) :
    ArraySound (arrayAllocSize n size).toNat (arraySetup m a n size) a n size
      ↔ 16 + elemBytes size * (n.toNat + 1) < 2 ^ 32 := by
  have hsucc : elemBytes size * (n.toNat + 1) = elemBytes size * n.toNat + elemBytes size :=
    Nat.mul_succ _ _
  constructor
  · intro hsound
    have hroom := hsound.room
    unfold arrayHdrSize at hroom
    have hlt := (arrayAllocSize n size).toNat_lt
    have hwidth : elemBytes size < 2 ^ 31 := by
      have hint := size.toInt_lt
      unfold elemBytes
      omega
    have hslots : n.toNat + 1 < 2 ^ 32 := by
      have hle : n.toNat ≤ elemBytes size * n.toNat :=
        Nat.le_mul_of_pos_left _ (elemBytes_pos size hpos)
      omega
    have hbytes : (arrayAllocSize n size).toNat
        = (16 + elemBytes size * (n.toNat + 1) % 2 ^ 32) % 2 ^ 32 := by
      rw [arrayAllocSize, UInt64.toNat_toUInt32, UInt64.toNat_add, UInt32.toNat_toUInt64,
        next_product n size hpos, Nat.mod_eq_of_lt hslots, show (16 : UInt64).toNat = 16 from rfl]
      omega
    -- A wrapped size is short by more than the one slot to spare.
    omega
  · intro hfits
    have hbytes : (arrayAllocSize n size).toNat = 16 + elemBytes size * (n.toNat + 1) :=
      ringAllocSize_toNat n size hpos hfits
    exact arraySound_of_room _ m a n size hpos (by omega) (by rw [hbytes]; omega)

/-- The block of a ring, created or set up, is sound exactly if header and
    slots fit 32 bits, that of an array created exactly if its slots do, and
    that of an array set up exactly if the header, its slots and one more do. -/
theorem block_sizes_iff (m : Mem) (base : Nat) (n : UInt32) (size : Int32)
    (hpos : 0 < size.toInt) :
    (RingSound (ringAllocSize n size).toNat (ringCreate (some base) m n size).2 base n size
        ↔ 16 + elemBytes size * (n.toNat + 1) < 2 ^ 32) ∧
      (RingSound (ringAllocSize n size).toNat (ringSetup m base n size) base n size
        ↔ 16 + elemBytes size * (n.toNat + 1) < 2 ^ 32) ∧
      (ArraySound (arrayCreateSize n size).toNat (arrayCreate (some base) m n size).2 base n size
        ↔ elemBytes size * n.toNat < 2 ^ 32) ∧
      (ArraySound (arrayAllocSize n size).toNat (arraySetup m base n size) base n size
        ↔ 16 + elemBytes size * (n.toNat + 1) < 2 ^ 32) :=
  ⟨ringSound_iff m base n size hpos, ringSound_iff m base n size hpos,
    arraySound_create_iff m base n size hpos, arraySound_setup_iff m base n size hpos⟩

/-- Seven elements of four bytes. -/
theorem block_sizes_small :
    RingSound 48 (ringSetup (fun _ => 9) 64 7 4) 64 7 4 ∧
      ArraySound 48 (arrayCreate (some 64) (fun _ => 9) 7 4).2 64 7 4 :=
  ⟨(block_sizes_iff (fun _ => 9) 64 7 4 (by decide)).2.1.mpr (by decide),
    (block_sizes_iff (fun _ => 9) 64 7 4 (by decide)).2.2.1.mpr (by decide)⟩

/-- The ring of the largest capacity has a block of 16 bytes and a modulus of
    zero, and an array of `2 ^ 16` elements of `2 ^ 16` bytes one of 20. -/
theorem block_sizes_wrap :
    (ringAllocSize 4294967295 1 = 16 ∧ (4294967295 + 1 : UInt32) = 0 ∧
      ¬ RingSound (ringAllocSize 4294967295 1).toNat
        (ringCreate (some 0) (fun _ => 0) 4294967295 1).2 0 4294967295 1) ∧
    (arrayCreateSize 65536 65536 = 20 ∧
      ¬ ArraySound (arrayCreateSize 65536 65536).toNat
        (arrayCreate (some 0) (fun _ => 0) 65536 65536).2 0 65536 65536) :=
  ⟨⟨by decide, by decide, fun h => h.modulus (by decide)⟩,
    ⟨by decide, fun h => absurd h.room (by decide)⟩⟩

end Aircmn
