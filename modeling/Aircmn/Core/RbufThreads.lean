import Aircmn.Core.Rbuf

/-!
# Two Threads on a Byte Ring Buffer

The calls of `cmn_rbuf.c` split where another thread can move. Each load of a
position, the copying, and the store of a position is one step; steps of the
two threads alternate in any order, each seeing the effects of all before it.

The writer calls `rbuf_wcap`, then `rbuf_write` with no more than it was told,
then `rbuf_wcap` again. The reader calls `rbuf_read`. What a thread has loaded
it keeps in its program point, and what it does with it is the plan that the
sequential call runs as well.

The world also records what the callers see: for every write what it asked for
and was returned, the bytes of the writes that have stored their position, and
the bytes that reads have put into their caller's memory.

## Main definitions

* `RbufWriter`, `RbufReader`: Program points.
* `RbufWorld`: Buffer, threads, and record.
* `RbufAct`, `rbufAct`: A step of a thread.
-/

namespace Aircmn

open Bytes

/-- Where the writer stands. -/
inductive RbufWriter where
  /-- About to call `rbuf_wcap`. -/
  | idle
  /-- `rbuf_wcap` has loaded `rpos`. -/
  | wcapRpos (rpos : UInt32)
  /-- `rbuf_wcap` has returned. -/
  | granted (room : UInt64)
  /-- `rbuf_write` has loaded `rpos`. -/
  | writeRpos (src : Mem) (n : UInt64) (rpos : UInt32)
  /-- `rbuf_write` has loaded both positions. -/
  | writeBoth (src : Mem) (n : UInt64) (rpos wpos : UInt32)
  /-- `rbuf_write` has made its copies. -/
  | copied (src : Mem) (n : UInt64) (plan : Plan)

/-- Where the reader stands. -/
inductive RbufReader where
  | idle
  /-- `rbuf_read` has loaded `rpos`. -/
  | readRpos (dst : Mem) (n : UInt64) (rpos : UInt32)
  /-- `rbuf_read` has loaded both positions. -/
  | readBoth (dst : Mem) (n : UInt64) (rpos wpos : UInt32)
  /-- `rbuf_read` has made its copies. -/
  | copied (plan : Plan)

/-- The buffer, where its two threads stand, and what their calls have answered. -/
structure RbufWorld where
  buf : Rbuf
  writer : RbufWriter
  reader : RbufReader
  /-- The requests and return values of the writes, in order. -/
  returns : List (UInt64 × UInt64)
  /-- The bytes of the writes that have stored their position. -/
  written : List UInt8
  /-- The bytes that reads have copied to their callers. -/
  delivered : List UInt8

/-- A step: a call is made, with its arguments, or a thread goes on. -/
inductive RbufAct where
  | write (src : Mem) (n : UInt64)
  | writer
  | read (dst : Mem) (n : UInt64)
  | reader

/-- The writer goes on with the call it is in. -/
def rbufWriterGo (s : RbufWorld) : Option RbufWorld :=
  match s.writer with
  | .idle => some { s with writer := .wcapRpos (rbufGetRpos s.buf) }
  | .wcapRpos rpos =>
    some { s with writer := .granted (wcapOf s.buf.cap rpos (rbufGetWpos s.buf)) }
  | .granted _ => none
  | .writeRpos src n rpos =>
    some { s with writer := .writeBoth src n rpos (rbufGetWpos s.buf) }
  | .writeBoth src n rpos wpos =>
    let plan := rbufWritePlan s.buf.cap rpos wpos n
    some { s with
      buf := { s.buf with data := runCopies s.buf.data src plan.copies }
      writer := .copied src n plan }
  | .copied src n plan =>
    some { s with
      buf := rbufSetWpos s.buf plan.pos
      writer := .idle
      returns := s.returns ++ [(n, plan.ret)]
      written := s.written ++ slice src 0 plan.ret.toNat }

/-- The reader goes on with the call it is in. -/
def rbufReaderGo (s : RbufWorld) : Option RbufWorld :=
  match s.reader with
  | .idle => none
  | .readRpos dst n rpos => some { s with reader := .readBoth dst n rpos (rbufGetWpos s.buf) }
  | .readBoth dst n rpos wpos =>
    let plan := rbufReadPlan s.buf.cap rpos wpos n
    some { s with
      reader := .copied plan
      delivered := s.delivered ++
        slice (runCopies dst s.buf.data plan.copies) 0 plan.ret.toNat }
  | .copied plan => some { s with buf := rbufSetRpos s.buf plan.pos, reader := .idle }

/-- One step of one thread, if the thread can take it. -/
def rbufAct (s : RbufWorld) : RbufAct → Option RbufWorld
  | .write src n =>
    match s.writer with
    | .granted room =>
      if n ≤ room then some { s with writer := .writeRpos src n (rbufGetRpos s.buf) } else none
    | _ => none
  | .writer => rbufWriterGo s
  | .read dst n =>
    match s.reader with
    | .idle => some { s with reader := .readRpos dst n (rbufGetRpos s.buf) }
    | _ => none
  | .reader => rbufReaderGo s

/-- Both threads about to make their first call on a new buffer. -/
def rbufThreads (buf : Rbuf) : RbufWorld :=
  { buf := buf, writer := .idle, reader := .idle, returns := [], written := [], delivered := [] }

end Aircmn
