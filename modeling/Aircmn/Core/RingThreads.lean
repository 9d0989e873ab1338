import Aircmn.Core.Ring

/-!
# Two Threads on a Ring Array

The calls of `cmn_ring.c` split where the other thread can move: the load of
its position together with the test on it, the copy of the slot, and the store
of the own position. Steps of the two threads alternate in any order, each
seeing the effects of all before it.

One thread pushes. The other pops, with or without a destination, and flushes.
A call that is refused is over in its first step. The world records what the
callers see: the elements whose push has returned `CMN_OK`, and for every
successful pop and every flush, in order, what it handed out.

## Main definitions

* `RingWriter`, `RingReader`: Program points.
* `RingTake`: What a call of the reader took out of the ring.
* `RingWorld`: Memory, threads, and record.
* `RingAct`, `ringAct`: A step of a thread.
-/

namespace Aircmn

open Bytes

/-- Where the thread that pushes stands. -/
inductive RingWriter where
  | idle
  /-- `ring_push` has found the ring not full. -/
  | copy (elem : Mem)
  /-- `ring_push` has copied the element. -/
  | store (elem : Mem)

/-- Where the thread that pops stands. -/
inductive RingReader where
  | idle
  /-- `ring_pop` has found the ring not empty, and has a destination. -/
  | copy
  /-- `ring_pop` has copied the element, if it has a destination. -/
  | store (bytes : Option (List UInt8))
  /-- `ring_flush` has loaded `wpos`. -/
  | flush (wpos : UInt32)

/-- What a call took out: an element handed to the caller, one element that
    was not, or whatever a flush found. -/
inductive RingTake where
  | popped (bytes : List UInt8)
  | dropped
  | flushed
deriving DecidableEq

/-- The memory of the ring, where its two threads stand, and what they have
    recorded. -/
structure RingWorld where
  mem : Mem
  writer : RingWriter
  reader : RingReader
  pushed : List (List UInt8)
  taken : List RingTake

/-- A step: a call is made, with its argument, or a thread goes on. -/
inductive RingAct where
  | push (elem : Mem)
  | writer
  | pop (elem : Bool)
  | flush
  | reader

/-- The record a successful pop leaves. -/
def popRecord : Option (List UInt8) → RingTake
  | some bytes => .popped bytes
  | none => .dropped

/-- One step of one thread on the ring at `r`, if the thread can take it. -/
def ringAct (r : Nat) (s : RingWorld) : RingAct → Option RingWorld
  | .push elem =>
    match s.writer with
    | .idle => if ringFull s.mem r then some s else some { s with writer := .copy elem }
    | _ => none
  | .writer =>
    match s.writer with
    | .idle => none
    | .copy elem => some { s with mem := ringPushCopy s.mem r elem, writer := .store elem }
    | .store elem =>
      some { s with
        mem := ringPushStore s.mem r
        writer := .idle
        pushed := s.pushed ++ [slice elem 0 (sizeOfInt (ringElemSize s.mem r))] }
  | .pop elem =>
    match s.reader with
    | .idle =>
      if ringEmpty s.mem r then some s
      else some { s with reader := if elem then .copy else .store none }
    | _ => none
  | .flush =>
    match s.reader with
    | .idle => some { s with reader := .flush (ringWpos s.mem r) }
    | _ => none
  | .reader =>
    match s.reader with
    | .idle => none
    | .copy => some { s with reader := .store (some (ringPopCopy s.mem r)) }
    | .store bytes =>
      some { s with
        mem := ringPopStore s.mem r
        reader := .idle
        taken := s.taken ++ [popRecord bytes] }
    | .flush wpos =>
      some { s with
        mem := ringSetRpos s.mem r wpos
        reader := .idle
        taken := s.taken ++ [.flushed] }

/-- Both threads about to make their first call. -/
def ringThreads (m : Mem) : RingWorld :=
  { mem := m, writer := .idle, reader := .idle, pushed := [], taken := [] }

end Aircmn
