import Aircmn.Core.Base
import Aircmn.Lib.Bytes

/-!
# Array

The functions of `cmn_array.c` and `cmn_array.h`, on a memory that holds the
`struct array` at some address. The header is four words, `nelem` at offset 0,
`nalloc` at 4, `size` at 8 and `status` at 12, and the elements start at
offset 16. `struct array` itself takes 20 bytes, the union at its end being
one word.

The functions that return a pointer return an address here, and the memory is
read through it. An `ASSERT` is not part of a definition: what it demands is
a condition on the calls of a run.

A callback of `array_each` is given the address of an element and the memory,
and may change whatever else the program holds, but not the array.

## Main definitions

* `arrayHdrSize`: The offset of `data`.
* `arrayNelem`, `arrayNalloc`, `arraySize`, `arrayStatus`: The header.
* `arrayAllocSize`, `arrayCreateSize`: The size of a block.
* `arraySlot`: The address of an element.
* `arrayAdd`, `arrayPush`, `arrayPop`, `arrayGet`, `arrayTop`, `arrayEach`:
  The operations.
* `arraySetup`, `arrayCreate`: Initialisation.
* `arrayIdx`, `arraySort`, `arrayFree`: The functions of the same names, with
  `arrayElems` and `QsortFits` for what `qsort` is given and leaves.
-/

namespace Aircmn

open Bytes

/-- `ARRAY_HDR_SIZE`. -/
def arrayHdrSize : Nat := 16

/-- How many elements are stored. -/
def arrayNelem (m : Mem) (a : Nat) : UInt32 := load32 m a

/-- How many there is room for. -/
def arrayNalloc (m : Mem) (a : Nat) : UInt32 := load32 m (a + 4)

/-- The size of an element. -/
def arraySize (m : Mem) (a : Nat) : Int32 := (load32 m (a + 8)).toInt32

/-- A field that no function of `cmn_array.c` sets. -/
def arrayStatus (m : Mem) (a : Nat) : Int32 := (load32 m (a + 12)).toInt32

/-- The store of a new count. -/
def arraySetNelem (m : Mem) (a : Nat) (nelem : UInt32) : Mem := store32 m a nelem

/-- `array_alloc_size`: the product is taken in `uint32_t`, the sum in
    `size_t`, and the total is a `uint32_t` again. -/
def arrayAllocSize (nalloc : UInt32) (size : Int32) : UInt32 :=
  (16 + (size.toUInt32 * (nalloc + 1)).toUInt64).toUInt32

/-- What `array_create` asks `cmn_alloc` for: the 20 bytes of the structure and
    the elements. -/
def arrayCreateSize (n : UInt32) (size : Int32) : UInt64 :=
  20 + (n * size.toUInt32).toUInt64

/-- `(uint8_t *)&a->data + a->size * idx`. -/
def arraySlot (m : Mem) (a : Nat) (idx : UInt32) : Nat :=
  a + arrayHdrSize + ((arraySize m a).toUInt32 * idx).toNat

/-- The copy of an element from the caller's memory into a slot. -/
def arrayCopy (m : Mem) (a : Nat) (elem : Mem) (idx : UInt32) : Mem :=
  memcpy m (arraySlot m a idx) elem 0 (sizeOfInt (arraySize m a))

/-- `array_add`, which tests the index for being the capacity and not for being at
    least that. -/
def arrayAdd (m : Mem) (a : Nat) (elem : Mem) (idx : UInt32) : Status × Mem :=
  if idx == arrayNalloc m a then (cmnEmem, m) else (cmnOk, arrayCopy m a elem idx)

/-- `array_push`: the count is stored after the element has been copied. -/
def arrayPush (m : Mem) (a : Nat) (elem : Mem) : Status × Mem :=
  if arrayNelem m a == arrayNalloc m a then (cmnEmem, m)
  else
    let m := arrayCopy m a elem (arrayNelem m a)
    (cmnOk, arraySetNelem m a (arrayNelem m a + 1))

/-- `array_pop`: the address of the element that is no longer counted. -/
def arrayPop (m : Mem) (a : Nat) : Nat × Mem :=
  let m := arraySetNelem m a (arrayNelem m a - 1)
  (arraySlot m a (arrayNelem m a), m)

/-- `array_get`: the address of the element. -/
def arrayGet (m : Mem) (a : Nat) (idx : UInt32) : Nat := arraySlot m a idx

/-- `array_top`: that of the last one. -/
def arrayTop (m : Mem) (a : Nat) : Nat := arrayGet m a (arrayNelem m a - 1)

/-- The loop of `array_each` with `k` rounds to go, at index `i`. -/
def arrayEachLoop {σ : Type} (func : Nat → Mem → σ → Status × σ) (m : Mem) (a : Nat) :
    Nat → UInt32 → σ → Status × σ
  | 0, _, data => (cmnOk, data)
  | k + 1, i, data =>
    let r := func (arrayGet m a i) m data
    if r.1 ≠ cmnOk then r else arrayEachLoop func m a k (i + 1) r.2

/-- `array_each`. -/
def arrayEach {σ : Type} (m : Mem) (a : Nat) (func : Nat → Mem → σ → Status × σ) (data : σ) :
    Status × σ :=
  arrayEachLoop func m a (arrayNelem m a).toNat 0 data

/-- `array_setup`, which does not set the status. -/
def arraySetup (m : Mem) (a : Nat) (n : UInt32) (size : Int32) : Mem :=
  let m := store32 m a 0
  let m := store32 m (a + 8) size.toUInt32
  store32 m (a + 4) n

/-- `array_create`. The first argument is what `cmn_alloc` returned for
    `arrayCreateSize n size` bytes. -/
def arrayCreate (alloc : Option Nat) (m : Mem) (n : UInt32) (size : Int32) : Option Nat × Mem :=
  match alloc with
  | none => (none, m)
  | some a =>
    let m := store32 m a 0
    let m := store32 m (a + 8) size.toUInt32
    (some a, store32 m (a + 4) n)

/-- `array_idx`: the difference of the addresses becomes a `uint32_t`. -/
def arrayIdx (m : Mem) (a ptr : Nat) : UInt32 :=
  UInt32.ofInt ((ptr : Int) - ((a + arrayHdrSize : Nat) : Int)) / (arraySize m a).toUInt32

/-- The elements that `array_sort` gives to `qsort`. -/
def arrayElems (m : Mem) (a : Nat) : List (List UInt8) :=
  let size := sizeOfInt (arraySize m a)
  (List.range (arrayNelem m a).toNat).map (fun i => slice m (a + arrayHdrSize + size * i) size)

/-- What `qsort` may make of `xs`: the same elements, in order. Those that
    compare equal are in any order. -/
def QsortFits (compare : List UInt8 → List UInt8 → Int) (xs ys : List (List UInt8)) : Prop :=
  ys.Perm xs ∧ ys.Pairwise (fun x y => compare x y ≤ 0)

instance (compare : List UInt8 → List UInt8 → Int) (xs ys : List (List UInt8)) :
    Decidable (QsortFits compare xs ys) := inferInstanceAs (Decidable (_ ∧ _))

/-- `array_sort`, whose `qsort` has left the elements `sorted`. -/
def arraySort (m : Mem) (a : Nat) (sorted : List (List UInt8)) : Mem :=
  blit m (a + arrayHdrSize) sorted.flatten.length (fun i => sorted.flatten.getD i 0)

/-- `array_free`: the bytes of the elements and three fields of the header are set
    to zero, and the block is kept. -/
def arrayFree (m : Mem) (a : Nat) : Mem :=
  let m := memset m (a + arrayHdrSize) 0 ((arraySize m a).toUInt32 * arrayNalloc m a).toNat
  let m := store32 m a 0
  let m := store32 m (a + 8) 0
  store32 m (a + 4) 0

end Aircmn
