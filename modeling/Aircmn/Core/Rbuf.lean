import Aircmn.Lib.Bytes

/-!
# Byte Ring Buffer

The functions of `cmn_rbuf.c`. A `struct rbuf` has two positions, a capacity,
and a block of `cap + 1` bytes; the model keeps the three numbers as fields
and the block as the memory from `data` on, so that an index past the block is
an address like any other and a copy that leaves the block is visible as one.

`rbuf_read` and `rbuf_write` load both positions, work out up to two copies
and a new position from them, perform the copies, and store the position. The
middle part depends on the two loaded values and nothing else, so it is a
function of its own, returning a `Plan`: the copies as data, the value to
return, and the position to store. Running the plan is the rest. A thread that
loaded its positions a while ago holds exactly such a plan, which is how the
same text serves the interleaved reading of these functions.

Positions are `uint32_t` and requests are `size_t`. The subtractions are the
source's own, at the source's widths, and the request passes through `_min` as
a `uint32_t`.

## Main definitions

* `Rbuf`: The buffer.
* `rbufCreate`, `rbufRcap`, `rbufWcap`: Creation and the two capacities.
* `Copy`, `Plan`: One `memcpy`, and what a call does with its positions.
* `rbufReadPlan`, `rbufWritePlan`: The plans of the two calls.
* `rbufRead`, `rbufWrite`: The two calls.
-/

namespace Aircmn

open Bytes

/-- `struct rbuf`: offsets, capacity, and the memory from `data` on. -/
structure Rbuf where
  rpos : UInt32
  wpos : UInt32
  cap : UInt32
  data : Mem

/-- `rbuf_create`. The argument is what `cmn_alloc` returned: nothing, or a
    block of unknown contents. -/
def rbufCreate (alloc : Option Mem) (cap : UInt32) : Option Rbuf :=
  alloc.map (fun data => { rpos := 0, wpos := 0, cap := cap, data := data })

/-- `rbuf_get_rpos`. -/
def rbufGetRpos (buf : Rbuf) : UInt32 := buf.rpos

/-- `rbuf_get_wpos`. -/
def rbufGetWpos (buf : Rbuf) : UInt32 := buf.wpos

/-- `rbuf_set_rpos`. -/
def rbufSetRpos (buf : Rbuf) (rpos : UInt32) : Rbuf := { buf with rpos := rpos }

/-- `rbuf_set_wpos`. -/
def rbufSetWpos (buf : Rbuf) (wpos : UInt32) : Rbuf := { buf with wpos := wpos }

/-- The number of readable bytes, from positions already loaded. -/
def rcapOf (cap rpos wpos : UInt32) : UInt64 :=
  if wpos < rpos then (cap + wpos - rpos + 1).toUInt64 else (wpos - rpos).toUInt64

/-- `rbuf_rcap`. -/
def rbufRcap (buf : Rbuf) : UInt64 :=
  rcapOf buf.cap (rbufGetRpos buf) (rbufGetWpos buf)

/-- The number of writable bytes, from positions already loaded. -/
def wcapOf (cap rpos wpos : UInt32) : UInt64 :=
  if wpos < rpos then (rpos - wpos - 1).toUInt64 else (cap - wpos + rpos).toUInt64

/-- `rbuf_wcap`. -/
def rbufWcap (buf : Rbuf) : UInt64 :=
  wcapOf buf.cap (rbufGetRpos buf) (rbufGetWpos buf)

/-- `_min`: its arguments are `uint32_t`, whatever the caller holds. -/
def min32 (first second : UInt32) : UInt32 := if first < second then first else second

/-- `_min` as the callers use it, from `size_t` to `size_t`. -/
def minSize (first second : UInt64) : UInt64 := (min32 first.toUInt32 second.toUInt32).toUInt64

/-- One `memcpy` of `len` bytes between the two blocks a call works on. -/
structure Copy where
  dst : Nat
  src : Nat
  len : Nat

/-- What a call does once it has loaded both positions: the copies it makes,
    the value it returns, and the position it stores. -/
structure Plan where
  copies : List Copy
  ret : UInt64
  pos : UInt32

/-- Perform the copies of a plan in order. -/
def runCopies (dst src : Mem) : List Copy → Mem
  | [] => dst
  | c :: cs => runCopies (memcpy dst c.dst src c.src c.len) src cs

/-- The body of `rbuf_read` between its loads and its store. -/
def rbufReadPlan (cap rpos wpos : UInt32) (n : UInt64) : Plan :=
  if wpos < rpos then
    -- read until end, then wrap around
    let capacity := (cap - rpos + 1).toUInt64
    let ret := minSize capacity n
    if ret < n then
      let remaining := minSize wpos.toUInt64 (n - ret)
      { copies := [⟨0, rpos.toNat, ret.toNat⟩, ⟨ret.toNat, 0, remaining.toNat⟩]
        ret := ret + remaining
        pos := remaining.toUInt32 }
    else
      { copies := [⟨0, rpos.toNat, ret.toNat⟩]
        ret := ret
        pos := (rpos.toUInt64 + ret).toUInt32 }
  else
    -- no wrapping around
    let capacity := (wpos - rpos).toUInt64
    let ret := minSize capacity n
    { copies := [⟨0, rpos.toNat, ret.toNat⟩]
      ret := ret
      pos := (rpos.toUInt64 + ret).toUInt32 }

/-- The body of `rbuf_write` between its loads and its store. -/
def rbufWritePlan (cap rpos wpos : UInt32) (n : UInt64) : Plan :=
  if wpos < rpos then
    -- no wrapping around
    let capacity := (rpos - wpos - 1).toUInt64
    let ret := minSize capacity n
    { copies := [⟨wpos.toNat, 0, ret.toNat⟩]
      ret := ret
      pos := (wpos.toUInt64 + ret).toUInt32 }
  else
    -- write until end, then wrap around
    let capacity := (cap - wpos + 1).toUInt64
    let ret := minSize capacity n
    if ret < n then
      let remaining := minSize (rpos - 1).toUInt64 (n - ret)
      { copies := [⟨wpos.toNat, 0, ret.toNat⟩, ⟨0, ret.toNat, remaining.toNat⟩]
        ret := ret + remaining
        pos := remaining.toUInt32 }
    else
      { copies := [⟨wpos.toNat, 0, ret.toNat⟩]
        ret := ret
        pos := (wpos.toUInt64 + ret).toUInt32 }

/-- `rbuf_read`: the return value, the caller's memory from `dst` on, and the
    buffer. -/
def rbufRead (dst : Mem) (src : Rbuf) (n : UInt64) : UInt64 × Mem × Rbuf :=
  let rpos := rbufGetRpos src
  let wpos := rbufGetWpos src
  let plan := rbufReadPlan src.cap rpos wpos n
  (plan.ret, runCopies dst src.data plan.copies, rbufSetRpos src plan.pos)

/-- `rbuf_write`: the return value and the buffer. -/
def rbufWrite (dst : Rbuf) (src : Mem) (n : UInt64) : UInt64 × Rbuf :=
  let rpos := rbufGetRpos dst
  let wpos := rbufGetWpos dst
  let plan := rbufWritePlan dst.cap rpos wpos n
  (plan.ret, rbufSetWpos { dst with data := runCopies dst.data src plan.copies } plan.pos)

end Aircmn
