import Aircmn.Lib.Bytes

/-!
# Shared Memory at an Address

Memory that several processes share has no address of its own. Each of them has
it at some address in a memory that is its own for the rest. What a process
finds there is what the shared memory holds, and what it stores there is in the
shared memory.

Loads, stores and slices at a distance from where the memory begins are those of
the shared memory at that distance, so a computation that knows addresses only
relative to one of them does the same wherever the memory is mapped.

## Main definitions

* `seenFrom`: A memory from an address on.
* `mapped`: What a process sees.
* `written`: The shared memory after the process has stored something.

## Theorems

* `load32_seenFrom`, `slice_seenFrom`: What is read.
* `seenFrom_blit`, `seenFrom_store32`: What is stored.
* `mapped_outside`, `mapped_seenFrom_same`, `written_seenFrom_same`: The shared
  memory in that of a process.
-/

namespace Bytes

/-- A memory from the address `b` on. -/
def seenFrom (b : Nat) (m : Mem) : Mem := fun i => m (b + i)

/-- `size` bytes of shared memory at the address `b`, and the rest of the memory. -/
def mapped (b size : Nat) (shared own : Mem) : Mem :=
  fun i => if b ≤ i ∧ i < b + size then shared (i - b) else own i

/-- The shared memory, when a process that has it at `b` has left its memory so. -/
def written (b size : Nat) (shared m : Mem) : Mem :=
  fun i => if i < size then seenFrom b m i else shared i

theorem load32_seenFrom (b : Nat) (m : Mem) (a : Nat) :
    load32 m (b + a) = load32 (seenFrom b m) a :=
  congrArg UInt32.ofNat (leNat_from m b 4 a)

theorem slice_seenFrom (b : Nat) (m : Mem) (a n : Nat) :
    slice m (b + a) n = slice (seenFrom b m) a n := by
  simp only [slice, seenFrom, Nat.add_assoc]

theorem seenFrom_blit (b : Nat) (m : Mem) (a n : Nat) (f : Nat → UInt8) :
    seenFrom b (blit m (b + a) n f) = blit (seenFrom b m) a n f := by
  ext i
  simp only [seenFrom, blit]
  by_cases hi : a ≤ i ∧ i < a + n
  · rw [if_pos (by omega), if_pos hi, Nat.add_sub_add_left]
  · rw [if_neg (by omega), if_neg hi]

theorem seenFrom_store32 (b : Nat) (m : Mem) (a : Nat) (v : UInt32) :
    seenFrom b (store32 m (b + a) v) = store32 (seenFrom b m) a v :=
  seenFrom_blit b m a 4 (leByte v.toNat)

theorem mapped_outside (b size : Nat) (shared own : Mem) :
    SameOutside b (b + size) own (mapped b size shared own) := by
  intro i hi
  rw [mapped, if_neg (by omega)]

theorem mapped_seenFrom_same (b size lo hi : Nat) (shared own : Mem) (h : hi ≤ size) :
    SameOn lo hi shared (seenFrom b (mapped b size shared own)) := by
  intro i _ hlt
  rw [seenFrom, mapped, if_pos (by omega), Nat.add_sub_cancel_left]

theorem written_seenFrom_same (b size lo hi : Nat) (shared m : Mem) (h : hi ≤ size) :
    SameOn lo hi (seenFrom b m) (written b size shared m) := by
  intro i _ hlt
  rw [written, if_pos (by omega)]

end Bytes
