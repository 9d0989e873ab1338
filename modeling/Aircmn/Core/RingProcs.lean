import Aircmn.Core.RingThreads
import Aircmn.Lib.Mapping

/-!
# Two Processes on a Ring Array

A ring in shared memory that one process pushes to and another one pops from.
The kernel has put the memory at an address of its choice in each of them, and
in the process that has set the ring up. All that they have in common is where
in the shared memory the ring is. The memory of the ring is the shared memory
here, and everything else a process has is its own.

A pop is given the address it copies the element to, as the process sees it. A
thread only records what it was handed; a process has it in its memory, at that
address, from the step on in which it copies.

## Main definitions

* `RingProcs`: The ring, and what each process has of its own.
* `RingProcAct`, `RingProcAct.thread`: A step, with the destination of a pop,
  and the step of a thread that it is.
* `RingProcAct.pushes`: The process that a step belongs to.
* `copiedOut`, `storeAll`: What a pop copies, and copies one after the other.
* `RingProcs.seen`, `RingProcs.after`, `ringProcAct`: A step of a process.
* `ringProcs`: A ring that has been set up.
-/

namespace Aircmn

open Bytes

/-- The memory of the ring is the shared one. The process that pushes is `true`.
    Where the pop in progress copies to is `elem`; every copy so far is in
    `copied`. -/
structure RingProcs where
  ring : RingWorld
  own : Bool → Mem
  elem : Nat
  copied : List (Nat × List UInt8)

/-- A step. `ring_pop` is given an address, or a null pointer. -/
inductive RingProcAct where
  | push (elem : Mem)
  | writer
  | pop (elem : Option Nat)
  | flush
  | reader

/-- The same step of a thread, which does not know addresses. -/
def RingProcAct.thread : RingProcAct → RingAct
  | .push elem => .push elem
  | .writer => .writer
  | .pop elem => .pop elem.isSome
  | .flush => .flush
  | .reader => .reader

/-- The step is one of the process that pushes. -/
def RingProcAct.pushes : RingProcAct → Bool
  | .push _ => true
  | .writer => true
  | .pop _ => false
  | .flush => false
  | .reader => false

/-- The destination, from the step on that makes the call. -/
def RingProcAct.dest (elem : Nat) : RingProcAct → Nat
  | .pop (some a) => a
  | _ => elem

/-- What a reader copies when it goes on from `before` to `after`. -/
def copiedOut (elem : Nat) : RingReader → RingReader → List (Nat × List UInt8)
  | .copy, .store (some bytes) => [(elem, bytes)]
  | _, _ => []

/-- A memory after copies to it, one after the other. -/
def storeAll (m : Mem) (copies : List (Nat × List UInt8)) : Mem :=
  copies.foldl (fun m c => blit m c.1 c.2.length (fun i => c.2.getD i 0)) m

/-- The ring in the memory of a process that has the shared memory at `b`. -/
def RingProcs.seen (size b : Nat) (w : RingProcs) (p : Bool) : RingWorld :=
  { w.ring with mem := mapped b size w.ring.mem (w.own p) }

/-- What is left when process `p` has gone on to `s`, and has copied `out` within
    the memory it sees. -/
def RingProcs.after (size b : Nat) (w : RingProcs) (p : Bool) (elem : Nat) (s : RingWorld)
    (out : List (Nat × List UInt8)) : RingProcs where
  ring := { s with mem := written b size w.ring.mem (storeAll s.mem out) }
  own := Function.update w.own p (storeAll s.mem out)
  elem := elem
  copied := w.copied ++ out

/-- A step of a process that has the memory at `base`, on the ring at `off` of
    it. -/
def ringProcAct (size : Nat) (base : Bool → Nat) (off : Nat) (w : RingProcs)
    (act : RingProcAct) : Option RingProcs :=
  let p := act.pushes
  (ringAct (base p + off) (w.seen size (base p) p) act.thread).map fun s =>
    w.after size (base p) p (act.dest w.elem) s (copiedOut w.elem w.ring.reader s.reader)

/-- A process that has the memory at `b` has set up the ring. -/
def ringProcs (size b off : Nat) (cap : UInt32) (elemSize : Int32) (shared creator : Mem)
    (own : Bool → Mem) : RingProcs where
  ring := ringThreads (written b size shared
    (ringSetup (mapped b size shared creator) (b + off) cap elemSize))
  own := own
  elem := 0
  copied := []

end Aircmn
