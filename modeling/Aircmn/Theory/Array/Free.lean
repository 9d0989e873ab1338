import Aircmn.Theory.Array.Block
import Aircmn.Lib.Machine

/-!
# An Array That Has Been Freed

`array_free` leaves the memory where it is. It wipes the elements and zeroes the
header but for `status`, so that the array has no room and its elements have no
bytes. A push is refused then. A store by index is refused for index 0 only,
which is the capacity; for every other index it copies no bytes and reports
success. Neither ever changes the memory again, and a visit finds nothing, until
the array is set up anew.

## Main definitions

* `ArrayFreed`: The header of an array that has been freed.
* `FreedOp`, `freedStep`, `freedAnswer`: Calls on it, and their answers.

## Theorems

* `arrayFree_freed`, `arrayFree_wipes`: What `array_free` does.
* `freedStep_idle`: A call on a freed array.
* `array_free_stores_nothing`: Everything after an `array_free`.
-/

namespace Aircmn

open Bytes Machine

/-- The header that `array_free` leaves. -/
structure ArrayFreed (m : Mem) (a : Nat) : Prop where
  nelem : arrayNelem m a = 0
  nalloc : arrayNalloc m a = 0
  size : arraySize m a = 0

/-- A call that a program may make on any array. -/
inductive FreedOp (σ : Type) where
  | push (elem : Mem)
  | add (elem : Mem) (idx : UInt32)
  | each (func : Nat → Mem → σ → Status × σ)

/-- The code, on the array at `a`. -/
def freedStep {σ : Type} (a : Nat) (s : Mem × σ) : FreedOp σ → (Mem × σ) × Status
  | .push elem => (((arrayPush s.1 a elem).2, s.2), (arrayPush s.1 a elem).1)
  | .add elem idx => (((arrayAdd s.1 a elem idx).2, s.2), (arrayAdd s.1 a elem idx).1)
  | .each func => ((s.1, (arrayEach s.1 a func s.2).2), (arrayEach s.1 a func s.2).1)

/-- What a freed array answers. -/
def freedAnswer {σ : Type} : FreedOp σ → Status
  | .push _ => cmnEmem
  | .add _ idx => if idx = 0 then cmnEmem else cmnOk
  | .each _ => cmnOk

theorem arrayFree_freed (m : Mem) (a : Nat) : ArrayFreed (arrayFree m a) a := by
  refine ⟨?_, ?_, ?_⟩
  all_goals simp (disch := omega) only [arrayFree, arrayNelem, arrayNalloc, arraySize,
    load32_store32_of_disjoint, load32_store32_self]
  rfl

section Wipe

variable (g : ArrayGeom) (m : Mem) (a : Nat) (h : ArrayAt g m a)

include h

/-- The bytes that are wiped are those of the slots. -/
theorem arrayFree_product : ((arraySize m a).toUInt32 * arrayNalloc m a).toNat
    = g.width * g.n.toNat := by
  have hfits := g.fits
  rw [h.size, h.nalloc, mul_toNat_of_fits _ _ g.pos (by omega), ArrayGeom.width]

/-- The slots are wiped, and only the block is stored to. -/
theorem arrayFree_wipes : SameOutside a (a + g.bytes) m (arrayFree m a)
    ∧ (∀ i, i < g.width * g.n.toNat → arrayFree m a (a + arrayHdrSize + i) = 0)
    ∧ arrayStatus (arrayFree m a) a = arrayStatus m a := by
  have hhdr := g.hdr_le
  unfold arrayHdrSize at hhdr
  -- The three header words that are cleared, at offsets 0, 4 and 8; status at 12 is not among them.
  have hword : ∀ m' off, off + 4 ≤ 16 → SameOutside a (a + g.bytes) m' (store32 m' (a + off) 0) :=
    fun m' off hoff => sameOutside_blit _ _ m' _ 4 _ (by omega) (by omega)
  refine ⟨?_, fun i hi => ?_, ?_⟩
  -- The data is wiped first, then the three words, all within the block.
  · simp only [arrayFree, arrayFree_product g m a h]
    refine sameOutside_trans _ _ _ _ _ ?_ (hword _ 4 (by decide))
    refine sameOutside_trans _ _ _ _ _ ?_ (hword _ 8 (by decide))
    refine sameOutside_trans _ _ _ _ _ ?_ (hword _ 0 (by decide))
    exact sameOutside_blit _ _ m _ _ _ (by omega) (by unfold ArrayGeom.bytes; omega)
  -- The words that are stored afterwards lie in front of the data.
  · simp only [arrayFree, arrayFree_product g m a h, arrayHdrSize]
    rw [store32, blit_outside _ _ _ _ _ (by omega), store32, blit_outside _ _ _ _ _ (by omega),
      store32, blit_outside _ _ _ _ _ (by omega)]
    exact blit_inside _ _ _ i _ hi
  · simp (disch := omega) only [arrayFree, arrayStatus, load32_store32_of_disjoint]
    rw [memset, load32_blit_of_disjoint _ _ _ _ _ (by unfold arrayHdrSize; omega)]

end Wipe

/-- A call on a freed array changes nothing. -/
theorem freedStep_idle {σ : Type} (a : Nat) (s : Mem × σ) (op : FreedOp σ)
    (h : ArrayFreed s.1 a) : freedStep a s op = (s, freedAnswer op) := by
  cases op with
  | push elem =>
      -- With nelem and nalloc both 0 the array counts as full.
      have hfull : (arrayNelem s.1 a == arrayNalloc s.1 a) = true := by
        rw [h.nelem, h.nalloc]
        rfl
      simp only [freedStep, arrayPush, if_pos hfull, freedAnswer]
  | add elem idx =>
      -- Index 0 is the end of an array without room, so it is refused like a push.
      by_cases hidx : idx = 0
      · rw [freedStep, arrayAdd_end s.1 a elem idx (hidx.trans h.nalloc.symm), freedAnswer,
          if_pos hidx]
      · -- An element of no bytes is copied.
        have hcopy : arrayCopy s.1 a elem idx = s.1 := by
          funext x
          rw [arrayCopy, h.size]
          exact blit_outside _ _ _ _ _ (by
            rw [show sizeOfInt 0 = 0 from rfl]
            omega)
        rw [freedStep, arrayAdd_other s.1 a elem idx (fun hc => hidx (hc.trans h.nalloc)), hcopy,
          freedAnswer, if_neg hidx]
  | each func =>
      simp only [freedStep, arrayEach, h.nelem, UInt32.toNat_zero, arrayEachLoop, freedAnswer]

/-- `array_free` wipes the elements, and no call after it stores anything. -/
theorem array_free_stores_nothing {σ : Type} (g : ArrayGeom) (m : Mem) (a : Nat)
    (h : ArrayAt g m a) (d : σ) (ops : List (FreedOp σ)) :
    SameOutside a (a + g.bytes) m (arrayFree m a)
      ∧ (∀ i, i < g.width * g.n.toNat → arrayFree m a (a + arrayHdrSize + i) = 0)
      ∧ arrayStatus (arrayFree m a) a = arrayStatus m a
      ∧ run (freedStep a) (arrayFree m a, d) ops = ((arrayFree m a, d), ops.map freedAnswer) := by
  rcases arrayFree_wipes g m a h with ⟨hout, hwiped, hstatus⟩
  refine ⟨hout, hwiped, hstatus, ?_⟩
  have hfreed := arrayFree_freed m a
  generalize arrayFree m a = m' at hfreed
  induction ops with
  | nil => rfl
  | cons op ops ih => rw [run, freedStep_idle a (m', d) op hfreed, ih, List.map_cons]

/-- An array of two elements of four bytes, used after it has been freed. -/
theorem array_free_stores_nothing_small :
    run (freedStep 64) (arrayFree (arraySetup (fun _ => 9) 64 2 4) 64, ())
        [.push (fun _ => 5), .add (fun _ => 5) 0, .add (fun _ => 5) 1]
      = ((arrayFree (arraySetup (fun _ => 9) 64 2 4) 64, ()), [cmnEmem, cmnEmem, cmnOk]) := by
  have hholds := arrayHolds_setup ⟨2, 4, by decide, by decide⟩ (fun _ => 9) 64
  exact (array_free_stores_nothing ⟨2, 4, by decide, by decide⟩ _ 64
    ⟨hholds.size, hholds.nalloc, hholds.nelem ▸ hholds.le⟩ () _).2.2.2

end Aircmn
