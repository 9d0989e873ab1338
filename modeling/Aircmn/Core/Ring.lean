import Aircmn.Core.Base
import Aircmn.Lib.Bytes

/-!
# Ring Array

The functions of `cmn_ring.c` and `cmn_ring.h`, on a memory that holds the
`struct ring` at some address. The header is four words, `elem_size` at offset
0, `cap` at 4, `rpos` at 8 and `wpos` at 12, and the slots start at offset 16;
every access goes through the memory, so a ring inside a shared segment and a
ring in a block of its own are the same model.

A push is a test, a copy into a slot, and a store of `wpos`; a pop is a test,
a copy out of a slot, and a store of `rpos`. The three parts are separate
definitions because another thread may move between them.

The address of a slot is `elem_size * pos` in `uint32_t`, added to the address
of `data`. The number of bytes copied is `elem_size` as a `size_t`.

## Main definitions

* `ringHdrSize`: The offset of `data`.
* `ringElemSize`, `ringCap`, `ringRpos`, `ringWpos`: The header.
* `ringAllocSize`: The size of a block.
* `ringNelem`: The number of occupied slots.
* `ringSlot`: The address of a slot.
* `ringFull`, `ringEmpty`, `ringPush`, `ringPop`, `ringFlush`: The operations.
* `ringSetup`, `ringCreate`: Initialisation.
-/

namespace Aircmn

open Bytes

/-- `RING_HDR_SIZE`. -/
def ringHdrSize : Nat := 16

/-- The size of an element. -/
def ringElemSize (m : Mem) (r : Nat) : Int32 := (load32 m r).toInt32

/-- How many elements fit; there is one slot more. -/
def ringCap (m : Mem) (r : Nat) : UInt32 := load32 m (r + 4)

/-- The slot to pop from. -/
def ringRpos (m : Mem) (r : Nat) : UInt32 := load32 m (r + 8)

/-- The slot to push to. -/
def ringWpos (m : Mem) (r : Nat) : UInt32 := load32 m (r + 12)

/-- The store of a new `rpos`. -/
def ringSetRpos (m : Mem) (r : Nat) (rpos : UInt32) : Mem := store32 m (r + 8) rpos

/-- The store of a new `wpos`. -/
def ringSetWpos (m : Mem) (r : Nat) (wpos : UInt32) : Mem := store32 m (r + 12) wpos

/-- `ring_alloc_size`: the product is taken in `uint32_t`, the sum in `size_t`,
    and the total is a `uint32_t` again. -/
def ringAllocSize (cap : UInt32) (elemSize : Int32) : UInt32 :=
  (16 + (elemSize.toUInt32 * (cap + 1)).toUInt64).toUInt32

/-- `ring_nelem`. -/
def ringNelem (rpos wpos cap : UInt32) : UInt32 :=
  if rpos ≤ wpos then wpos - rpos else wpos + (cap - rpos + 1)

/-- `r->data + (r->elem_size * pos)`. -/
def ringSlot (m : Mem) (r : Nat) (pos : UInt32) : Nat :=
  r + ringHdrSize + ((ringElemSize m r).toUInt32 * pos).toNat

/-- `ring_full`. -/
def ringFull (m : Mem) (r : Nat) : Bool :=
  let rpos := ringRpos m r
  ringNelem rpos (ringWpos m r) (ringCap m r) == ringCap m r

/-- `ring_empty`. -/
def ringEmpty (m : Mem) (r : Nat) : Bool :=
  let wpos := ringWpos m r
  ringNelem (ringRpos m r) wpos (ringCap m r) == 0

/-- The copy of `ring_push`, from the caller's memory at `elem`. -/
def ringPushCopy (m : Mem) (r : Nat) (elem : Mem) : Mem :=
  memcpy m (ringSlot m r (ringWpos m r)) elem 0 (sizeOfInt (ringElemSize m r))

/-- The store of `ring_push`. -/
def ringPushStore (m : Mem) (r : Nat) : Mem :=
  ringSetWpos m r ((ringWpos m r + 1) % (ringCap m r + 1))

/-- `ring_push`: the element is copied before `wpos` is stored. -/
def ringPush (m : Mem) (r : Nat) (elem : Mem) : Status × Mem :=
  if ringFull m r then (cmnError, m) else (cmnOk, ringPushStore (ringPushCopy m r elem) r)

/-- The bytes `ring_pop` copies to its destination. -/
def ringPopCopy (m : Mem) (r : Nat) : List UInt8 :=
  slice m (ringSlot m r (ringRpos m r)) (sizeOfInt (ringElemSize m r))

/-- The store of `ring_pop`. -/
def ringPopStore (m : Mem) (r : Nat) : Mem :=
  ringSetRpos m r ((ringRpos m r + 1) % (ringCap m r + 1))

/-- `ring_pop`. The flag says whether `elem` is not `NULL`; the bytes are what
    is copied to it, if anything is. -/
def ringPop (m : Mem) (r : Nat) (elem : Bool) : Status × Option (List UInt8) × Mem :=
  if ringEmpty m r then (cmnError, none, m)
  else (cmnOk, if elem then some (ringPopCopy m r) else none, ringPopStore m r)

/-- `ring_flush`. -/
def ringFlush (m : Mem) (r : Nat) : Mem :=
  let wpos := ringWpos m r
  ringSetRpos m r wpos

/-- `ring_setup`. -/
def ringSetup (m : Mem) (r : Nat) (cap : UInt32) (elemSize : Int32) : Mem :=
  let m := store32 m r elemSize.toUInt32
  let m := store32 m (r + 4) cap
  let m := store32 m (r + 12) 0
  store32 m (r + 8) 0

/-- `ring_create`. The first argument is what `cmn_alloc` returned for
    `ringAllocSize cap elemSize` bytes. -/
def ringCreate (alloc : Option Nat) (m : Mem) (cap : UInt32) (elemSize : Int32) :
    Option Nat × Mem :=
  match alloc with
  | none => (none, m)
  | some r =>
    let m := store32 m r elemSize.toUInt32
    let m := store32 m (r + 4) cap
    let m := store32 m (r + 12) 0
    (some r, store32 m (r + 8) 0)

end Aircmn
