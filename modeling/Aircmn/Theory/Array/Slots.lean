import Aircmn.Core.Array

/-!
# Elements of an Array

What the pieces of the array operations do to a sequence of elements.
`ArrayHolds` says that the header in memory describes an array of a given
geometry and that the first `nelem` slots are a sequence. The slots after them
hold whatever was there: an element popped stays in its slot, and the sequence
does not mention it.

An `ArrayGeom` carries the bound on the block size that the callers promise.
Under it no product of the source wraps, also not for the index one past the
last.

## Main definitions

* `ArrayGeom`: Capacity and element size of a block that fits 32 bits.
* `arrayEntry`: The bytes of a slot.
* `ArrayHolds`: The array holds a sequence.
* `arrayContents`: The counted slots, in order.

## Theorems

* `arraySlot_eq`: The address of a slot is the true product.
* `arrayHolds_setup`: An array set up is empty.
* `arrayCopy_entry`, `arrayCopy_other`, `arrayCopy_word`: A copy fills one
  slot and nothing else.
* `arrayAdd_end`, `arrayAdd_other`: The index refused, and all others.
* `arraySetNelem_holds`: Storing the count says what the sequence is.
* `arrayHolds_append`, `arrayHolds_dropLast`, `arrayHolds_set`: What a push, a
  pop and a store do to the sequence.
-/

namespace Aircmn

open Bytes

/-- The capacity and element size of an array whose block size fits 32 bits. -/
structure ArrayGeom where
  n : UInt32
  size : Int32
  pos : 0 < size.toInt
  fits : arrayHdrSize + elemBytes size * n.toNat < 2 ^ 32

/-- The number of bytes of a slot. -/
def ArrayGeom.width (g : ArrayGeom) : Nat := elemBytes g.size

/-- The bytes of slot `i` of the array at `a`. -/
def arrayEntry (g : ArrayGeom) (m : Mem) (a i : Nat) : List UInt8 :=
  slice m (a + arrayHdrSize + g.width * i) g.width

/-- The array at `a` holds the sequence `seq`. -/
structure ArrayHolds (g : ArrayGeom) (m : Mem) (a : Nat) (seq : List (List UInt8)) : Prop where
  size : arraySize m a = g.size
  nalloc : arrayNalloc m a = g.n
  nelem : (arrayNelem m a).toNat = seq.length
  le : seq.length ≤ g.n.toNat
  sits : ∀ i (h : i < seq.length), arrayEntry g m a i = seq[i]

/-- The counted slots, in order. -/
def arrayContents (g : ArrayGeom) (m : Mem) (a : Nat) : List (List UInt8) :=
  (List.range (arrayNelem m a).toNat).map (arrayEntry g m a)

theorem arrayHolds_contents (g : ArrayGeom) (m : Mem) (a : Nat) (seq : List (List UInt8))
    (h : ArrayHolds g m a seq) : arrayContents g m a = seq := by
  refine List.ext_getElem ?_ (fun i hi hi' => ?_)
  · rw [arrayContents, List.length_map, List.length_range, h.nelem]
  · simp only [arrayContents, List.getElem_map, List.getElem_range]
    exact h.sits i hi'

theorem arraySlot_eq (g : ArrayGeom) (m : Mem) (a : Nat) (idx : UInt32)
    (hsize : arraySize m a = g.size) (hidx : idx.toNat ≤ g.n.toNat) :
    arraySlot m a idx = a + arrayHdrSize + g.width * idx.toNat := by
  have hfits := g.fits
  -- The product is at most that for the index one past the last.
  have hle : elemBytes g.size * idx.toNat ≤ elemBytes g.size * g.n.toNat :=
    Nat.mul_le_mul_left _ hidx
  rw [arraySlot, hsize, mul_toNat_of_fits _ _ g.pos (by omega), ArrayGeom.width]

theorem arraySetup_status (m : Mem) (a : Nat) (n : UInt32) (size : Int32) :
    arrayStatus (arraySetup m a n size) a = arrayStatus m a := by
  simp (disch := omega) only [arraySetup, arrayStatus, load32_store32_of_disjoint]

theorem arrayHolds_setup (g : ArrayGeom) (m : Mem) (a : Nat) :
    ArrayHolds g (arraySetup m a g.n g.size) a [] := by
  refine ⟨?_, ?_, ?_, Nat.zero_le _, fun i h => absurd h (Nat.not_lt_zero i)⟩
  all_goals simp (disch := omega) only [arraySetup, arraySize, arrayNalloc, arrayNelem,
    load32_store32_of_disjoint, load32_store32_self, Int32.toInt32_toUInt32, UInt32.toNat_zero,
    List.length_nil]

/-- The copy goes to slot `idx`, with the width of a slot. -/
theorem arrayCopy_eq (g : ArrayGeom) (m : Mem) (a : Nat) (elem : Mem) (idx : UInt32)
    (hsize : arraySize m a = g.size) (hidx : idx.toNat ≤ g.n.toNat) :
    arrayCopy m a elem idx
      = memcpy m (a + arrayHdrSize + g.width * idx.toNat) elem 0 g.width := by
  rw [arrayCopy, arraySlot_eq g m a idx hsize hidx, hsize, sizeOfInt_of_pos _ g.pos,
    ArrayGeom.width]

theorem arrayCopy_entry (g : ArrayGeom) (m : Mem) (a : Nat) (elem : Mem) (idx : UInt32)
    (hsize : arraySize m a = g.size) (hidx : idx.toNat ≤ g.n.toNat) :
    arrayEntry g (arrayCopy m a elem idx) a idx.toNat = slice elem 0 g.width := by
  rw [arrayCopy_eq g m a elem idx hsize hidx]
  exact slice_memcpy_self m _ g.width elem 0

theorem arrayCopy_other (g : ArrayGeom) (m : Mem) (a : Nat) (elem : Mem) (idx : UInt32) (i : Nat)
    (hsize : arraySize m a = g.size) (hidx : idx.toNat ≤ g.n.toNat) (hi : i ≠ idx.toNat) :
    arrayEntry g (arrayCopy m a elem idx) a i = arrayEntry g m a i := by
  rw [arrayCopy_eq g m a elem idx hsize hidx]
  have hapart := cells_disjoint g.width i idx.toNat hi
  exact slice_blit_of_disjoint _ _ _ _ _ _ (by omega)

/-- A copy leaves the words of the header alone. -/
theorem arrayCopy_word (g : ArrayGeom) (m : Mem) (a : Nat) (elem : Mem) (idx : UInt32)
    (off : Nat) (hsize : arraySize m a = g.size) (hidx : idx.toNat ≤ g.n.toNat)
    (hoff : off + 4 ≤ arrayHdrSize) :
    load32 (arrayCopy m a elem idx) (a + off) = load32 m (a + off) := by
  rw [arrayCopy_eq g m a elem idx hsize hidx]
  exact load32_blit_of_disjoint _ _ _ _ _ (by omega)

theorem arrayCopy_size (g : ArrayGeom) (m : Mem) (a : Nat) (elem : Mem) (idx : UInt32)
    (hsize : arraySize m a = g.size) (hidx : idx.toNat ≤ g.n.toNat) :
    arraySize (arrayCopy m a elem idx) a = g.size := by
  rw [arraySize, arrayCopy_word g m a elem idx 8 hsize hidx (by decide)]
  exact hsize

theorem arrayCopy_nalloc (g : ArrayGeom) (m : Mem) (a : Nat) (elem : Mem) (idx : UInt32)
    (hsize : arraySize m a = g.size) (hidx : idx.toNat ≤ g.n.toNat) :
    arrayNalloc (arrayCopy m a elem idx) a = arrayNalloc m a :=
  arrayCopy_word g m a elem idx 4 hsize hidx (by decide)

theorem arrayCopy_nelem (g : ArrayGeom) (m : Mem) (a : Nat) (elem : Mem) (idx : UInt32)
    (hsize : arraySize m a = g.size) (hidx : idx.toNat ≤ g.n.toNat) :
    arrayNelem (arrayCopy m a elem idx) a = arrayNelem m a :=
  arrayCopy_word g m a elem idx 0 hsize hidx (by decide)

theorem arrayCopy_status (g : ArrayGeom) (m : Mem) (a : Nat) (elem : Mem) (idx : UInt32)
    (hsize : arraySize m a = g.size) (hidx : idx.toNat ≤ g.n.toNat) :
    arrayStatus (arrayCopy m a elem idx) a = arrayStatus m a :=
  congrArg UInt32.toInt32 (arrayCopy_word g m a elem idx 12 hsize hidx (by decide))

/-- The one index that `array_add` refuses is the capacity. -/
theorem arrayAdd_end (m : Mem) (a : Nat) (elem : Mem) (idx : UInt32)
    (h : idx = arrayNalloc m a) : arrayAdd m a elem idx = (cmnEmem, m) :=
  if_pos (beq_iff_eq.mpr h)

theorem arrayAdd_other (m : Mem) (a : Nat) (elem : Mem) (idx : UInt32)
    (h : idx ≠ arrayNalloc m a) : arrayAdd m a elem idx = (cmnOk, arrayCopy m a elem idx) :=
  if_neg (fun hc => h (beq_iff_eq.mp hc))

theorem ne_nalloc_of_lt (m : Mem) (a : Nat) (idx : UInt32)
    (h : idx.toNat < (arrayNalloc m a).toNat) : idx ≠ arrayNalloc m a :=
  fun heq => Nat.ne_of_lt h (congrArg UInt32.toNat heq)

@[simp]
theorem arraySetNelem_nelem (m : Mem) (a : Nat) (nelem : UInt32) :
    arrayNelem (arraySetNelem m a nelem) a = nelem :=
  load32_store32_self _ _ _

@[simp]
theorem arraySetNelem_nalloc (m : Mem) (a : Nat) (nelem : UInt32) :
    arrayNalloc (arraySetNelem m a nelem) a = arrayNalloc m a :=
  load32_store32_of_disjoint _ _ _ _ (by omega)

@[simp]
theorem arraySetNelem_size (m : Mem) (a : Nat) (nelem : UInt32) :
    arraySize (arraySetNelem m a nelem) a = arraySize m a :=
  congrArg UInt32.toInt32 (load32_store32_of_disjoint _ _ _ _ (by omega))

@[simp]
theorem arraySetNelem_status (m : Mem) (a : Nat) (nelem : UInt32) :
    arrayStatus (arraySetNelem m a nelem) a = arrayStatus m a :=
  congrArg UInt32.toInt32 (load32_store32_of_disjoint _ _ _ _ (by omega))

/-- Storing the count leaves the slots alone. -/
theorem arraySetNelem_entry (g : ArrayGeom) (m : Mem) (a i : Nat) (nelem : UInt32) :
    arrayEntry g (arraySetNelem m a nelem) a i = arrayEntry g m a i :=
  slice_blit_of_disjoint _ _ _ _ _ _ (by unfold arrayHdrSize; omega)

/-- The count moves to the length of a sequence whose elements are in their
    slots. -/
theorem arraySetNelem_holds (g : ArrayGeom) (m : Mem) (a : Nat) (nelem : UInt32)
    (seq : List (List UInt8)) (hsize : arraySize m a = g.size) (hnalloc : arrayNalloc m a = g.n)
    (hnelem : nelem.toNat = seq.length) (hle : seq.length ≤ g.n.toNat)
    (hsits : ∀ i (h : i < seq.length), arrayEntry g m a i = seq[i]) :
    ArrayHolds g (arraySetNelem m a nelem) a seq :=
  ⟨by simp [hsize], by simp [hnalloc], by simp [hnelem], hle,
    fun i h => (arraySetNelem_entry g m a i nelem).trans (hsits i h)⟩

theorem arrayHolds_append (g : ArrayGeom) (m : Mem) (a : Nat) (seq : List (List UInt8))
    (elem : Mem) (h : ArrayHolds g m a seq) (hroom : seq.length < g.n.toNat) :
    ArrayHolds g (arraySetNelem (arrayCopy m a elem (arrayNelem m a)) a (arrayNelem m a + 1)) a
      (seq ++ [slice elem 0 g.width]) := by
  have hidx : (arrayNelem m a).toNat ≤ g.n.toNat := by rw [h.nelem]; exact h.le
  have hlen : (seq ++ [slice elem 0 g.width]).length = seq.length + 1 := by
    rw [List.length_append, List.length_singleton]
  refine arraySetNelem_holds g _ a _ _ (arrayCopy_size g m a elem _ h.size hidx)
    ((arrayCopy_nalloc g m a elem _ h.size hidx).trans h.nalloc) ?_ (by omega) ?_
  · have hn := g.n.toNat_lt
    rw [hlen, UInt32.toNat_add, UInt32.toNat_one, h.nelem]
    omega
  · intro i hi
    -- The element pushed is in the slot the count named; the others stayed.
    by_cases hlast : i = seq.length
    · subst hlast
      have hentry := arrayCopy_entry g m a elem _ h.size hidx
      rw [h.nelem] at hentry
      rw [List.getElem_concat_length rfl, hentry]
    · have hlt : i < seq.length := by omega
      rw [arrayCopy_other g m a elem _ i h.size hidx (by rw [h.nelem]; exact hlast),
        List.getElem_append_left hlt, h.sits i hlt]

theorem arrayHolds_dropLast (g : ArrayGeom) (m : Mem) (a : Nat) (seq : List (List UInt8))
    (h : ArrayHolds g m a seq) (hne : 0 < seq.length) :
    ArrayHolds g (arraySetNelem m a (arrayNelem m a - 1)) a seq.dropLast := by
  refine arraySetNelem_holds g m a _ _ h.size h.nalloc ?_ ?_ ?_
  · have hone : (1 : UInt32) ≤ arrayNelem m a := by
      rw [UInt32.le_iff_toNat_le, UInt32.toNat_one, h.nelem]
      exact hne
    rw [List.length_dropLast, UInt32.toNat_sub_of_le _ _ hone, UInt32.toNat_one, h.nelem]
  · rw [List.length_dropLast]
    exact Nat.le_trans (Nat.sub_le _ _) h.le
  · intro i hi
    rw [List.length_dropLast] at hi
    rw [List.getElem_dropLast, h.sits i (by omega)]

theorem arrayHolds_set (g : ArrayGeom) (m : Mem) (a : Nat) (seq : List (List UInt8)) (elem : Mem)
    (idx : UInt32) (h : ArrayHolds g m a seq) (hidx : idx.toNat < seq.length) :
    ArrayHolds g (arrayCopy m a elem idx) a (seq.set idx.toNat (slice elem 0 g.width)) := by
  have hle : idx.toNat ≤ g.n.toNat := Nat.le_trans (Nat.le_of_lt hidx) h.le
  refine ⟨arrayCopy_size g m a elem idx h.size hle,
    (arrayCopy_nalloc g m a elem idx h.size hle).trans h.nalloc, ?_, ?_, ?_⟩
  · rw [arrayCopy_nelem g m a elem idx h.size hle, h.nelem, List.length_set]
  · rw [List.length_set]
    exact h.le
  · intro i hi
    rw [List.length_set] at hi
    rw [List.getElem_set]
    -- Either this is the slot stored to, or the copy missed it.
    by_cases heq : idx.toNat = i
    · rw [if_pos heq, ← heq, arrayCopy_entry g m a elem idx h.size hle]
    · rw [if_neg heq, arrayCopy_other g m a elem idx i h.size hle (fun hc => heq hc.symm),
        h.sits i hi]

/-- The bytes at a counted slot, read through its address. -/
theorem arrayHolds_read (g : ArrayGeom) (m : Mem) (a : Nat) (seq : List (List UInt8))
    (idx : UInt32) (h : ArrayHolds g m a seq) (hidx : idx.toNat < seq.length) :
    slice m (arraySlot m a idx) (sizeOfInt (arraySize m a)) = seq[idx.toNat] := by
  rw [arraySlot_eq g m a idx h.size (Nat.le_trans (Nat.le_of_lt hidx) h.le), h.size,
    sizeOfInt_of_pos _ g.pos]
  exact h.sits idx.toNat hidx

end Aircmn
