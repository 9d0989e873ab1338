import Aircmn.Core.Sock
import Aircmn.Lib.Resources

/-!
# Events

`cmn_event.c`. An event base is an `epoll` descriptor, an array for the events
of one wait and a callback. What the kernel watches through the descriptor is
one entry for each file descriptor, with the events of interest and a pointer
of the caller's; what the system calls answer is given with a call, and
`CtlFits` and `WaitFits` say which answers the kernel can give. A descriptor
that is closed is no longer watched; no copies of watched descriptors are
considered. What is logged is left out.

`event_wait` calls back for every event, and a callback may do anything, take
descriptors off or wait itself included. So the call is taken apart: a step
into it, up to the return of `epoll_wait`, a step for each event, and a step
out of it, with the program free to act in between. The array is one for all
calls that are in progress.

## Main definitions

* `EpollEvent`, `Interest`, `epollCtl`, `CtlFits`: What the kernel watches.
* `eventUpdate`, `eventAddRead`, `eventAddWrite`, `eventDel`: The functions of
  the same names.
* `eventFlags`: What the callback is given for an event.
* `WaitAnswer`, `WaitFits`, `eventPoll`: Up to the return of `epoll_wait`.
* `EventWorld`, `EventAct`, `eventAct`: An event base in a program.
* `EventBase`, `EventHome`, `eventBaseCreate`, `eventBaseDestroy`: Setting up
  and giving back.
* `EventBases`, `BaseAct`, `baseAct`: A program with several event bases.
-/

namespace Aircmn

open Descriptors

/-- `CMN_EEVENT`. -/
def cmnEevent : Status := -7

/-- `EPOLLIN`. -/
def epollin : UInt32 := 0x001

/-- `EPOLLOUT`. -/
def epollout : UInt32 := 0x004

/-- `EPOLLERR`. -/
def epollerr : UInt32 := 0x008

/-- `EPOLLHUP`. -/
def epollhup : UInt32 := 0x010

/-- `EPOLLRDHUP`. -/
def epollrdhup : UInt32 := 0x2000

/-- `EVENT_READ`. -/
def eventRead : UInt32 := 0x0000ff

/-- `EVENT_WRITE`. -/
def eventWrite : UInt32 := 0x00ff00

/-- `EVENT_ERR`. -/
def eventErr : UInt32 := 0xff0000

/-- `struct epoll_event`. -/
structure EpollEvent where
  events : UInt32
  ptr : Nat
deriving DecidableEq

section Control

/-- What is watched for each descriptor. -/
abbrev Interest := Int32 → Option EpollEvent

/-- The operations of `epoll_ctl` that the code asks for. -/
inductive CtlOp where
  | add
  | del
deriving DecidableEq

/-- `epoll_ctl` has answered with `r`. -/
def epollCtl (t : Interest) (op : CtlOp) (fd : Int32) (event : EpollEvent) (r : SysRet) :
    Interest :=
  if r.ret < 0 then t
  else match op with
    | .add => Function.update t fd (some event)
    | .del => Function.update t fd none

/-- The answers of `epoll_ctl`: what is watched is not added again, and what is
    not watched is not taken off. -/
def CtlFits (t : Interest) (op : CtlOp) (fd : Int32) (r : SysRet) : Prop :=
  r.ret < 0 ∨ (r.ret = 0 ∧ match op with
    | .add => t fd = none
    | .del => t fd ≠ none)

instance (t : Interest) (op : CtlOp) (fd : Int32) (r : SysRet) : Decidable (CtlFits t op fd r) :=
  match op with
  | .add => inferInstanceAs (Decidable (r.ret < 0 ∨ (r.ret = 0 ∧ t fd = none)))
  | .del => inferInstanceAs (Decidable (r.ret < 0 ∨ (r.ret = 0 ∧ t fd ≠ none)))

/-- `_event_update`: the status, and what is watched from then on. -/
def eventUpdate (t : Interest) (fd : Int32) (op : CtlOp) (events : UInt32) (ptr : Nat)
    (r : SysRet) : Status × Interest :=
  (r.ret.toInt, epollCtl t op fd ⟨events, ptr⟩ r)

/-- `event_add_read`. -/
def eventAddRead (t : Interest) (fd : Int32) (data : Nat) (r : SysRet) : Status × Interest :=
  eventUpdate t fd .add epollin data r

/-- `event_add_write`. -/
def eventAddWrite (t : Interest) (fd : Int32) (data : Nat) (r : SysRet) : Status × Interest :=
  eventUpdate t fd .add epollout data r

/-- `event_del`. -/
def eventDel (t : Interest) (fd : Int32) (r : SysRet) : Status × Interest :=
  eventUpdate t fd .del 0 0 r

end Control

section Wait

/-- The flags the callback is given for an event. -/
def eventFlags (ev : UInt32) : UInt32 :=
  let events : UInt32 := 0
  let events := if ev &&& (epollerr ||| epollhup) ≠ 0 then events ||| eventErr else events
  let events := if ev &&& (epollin ||| epollrdhup) ≠ 0 then events ||| eventRead else events
  if ev &&& epollout ≠ 0 then events ||| eventWrite else events

/-- What an `epoll_wait` does. -/
inductive WaitAnswer where
  /-- These descriptors are ready, each for these events. -/
  | ready (fds : List (Int32 × UInt32))
  /-- It returns zero. -/
  | nothing
  | failed (errno : Int32)
deriving DecidableEq

/-- An event is reported only where it is of interest, errors and hang-ups
    always. -/
def ReportFits (t : Interest) (fd : Int32) (events : UInt32) : Prop :=
  match t fd with
  | none => False
  | some event => events ≠ 0 ∧ events &&& ~~~(event.events ||| epollerr ||| epollhup) = 0

instance (t : Interest) (fd : Int32) (events : UInt32) : Decidable (ReportFits t fd events) := by
  unfold ReportFits
  split <;> infer_instance

instance (t : Interest) (fds : List (Int32 × UInt32)) :
    Decidable (∀ r ∈ fds, ReportFits t r.1 r.2) :=
  List.decidableBAll _ fds

/-- The answers of `epoll_wait` with room for `nevent` events. -/
def WaitFits (t : Interest) (nevent : Nat) : WaitAnswer → Prop
  | .ready fds => fds ≠ [] ∧ fds.length ≤ nevent ∧ (fds.map Prod.fst).Nodup ∧
      ∀ r ∈ fds, ReportFits t r.1 r.2
  | .nothing => True
  | .failed _ => True

instance (t : Interest) (nevent : Nat) : (a : WaitAnswer) → Decidable (WaitFits t nevent a)
  | .ready fds => inferInstanceAs (Decidable (fds ≠ [] ∧ fds.length ≤ nevent ∧
      (fds.map Prod.fst).Nodup ∧ ∀ r ∈ fds, ReportFits t r.1 r.2))
  | .nothing => inferInstanceAs (Decidable True)
  | .failed _ => inferInstanceAs (Decidable True)

/-- The event the kernel stores for a descriptor that is ready. -/
def reported (t : Interest) (r : Int32 × UInt32) : EpollEvent :=
  ⟨r.2, ((t r.1).map EpollEvent.ptr).getD 0⟩

/-- `event_wait` up to where `epoll_wait` has returned something: the
    descriptors that are ready, or what the function returns. -/
def eventPoll (timeout : Int32) : List WaitAnswer → Option (List (Int32 × UInt32) ⊕ Status)
  | [] => none
  | .ready fds :: _ => some (.inl fds)
  | .nothing :: _ => some (.inr (if timeout = -1 then cmnEevent else cmnOk))
  | .failed errno :: answers =>
    if errno = eintr then eventPoll timeout answers else some (.inr cmnError)

/-- An `event_wait` in its inner loop. -/
structure EventFrame where
  i : Nat
  nreturned : Nat
deriving DecidableEq

/-- An event base in a program: what is watched, the array, the calls of
    `event_wait` in progress, the innermost first, the callbacks made so far and
    what the waits have returned. -/
structure EventWorld where
  interest : Interest
  event : Nat → EpollEvent
  frames : List EventFrame
  calls : List (Nat × UInt32)
  rets : List Status

/-- The kernel stores the events into the array. -/
def eventStore (w : EventWorld) (fds : List (Int32 × UInt32)) : Nat → EpollEvent :=
  fun j => ((fds.map (reported w.interest))[j]?).getD (w.event j)

/-- What a program does with its base, also within a callback. -/
inductive EventAct where
  | addRead (fd : Int32) (data : Nat) (r : SysRet)
  | addWrite (fd : Int32) (data : Nat) (r : SysRet)
  | del (fd : Int32) (r : SysRet)
  | wait (timeout : Int32) (answers : List WaitAnswer)
  /-- The innermost wait goes on to its next event. -/
  | next
  /-- The innermost wait returns. -/
  | leave
  /-- The program closes a descriptor. -/
  | closed (fd : Int32)
deriving DecidableEq

/-- One step, unless the kernel cannot answer so. -/
def eventAct (nevent : Nat) (cb : Bool) (w : EventWorld) : EventAct → Option EventWorld
  | .addRead fd data r =>
    if CtlFits w.interest .add fd r then
      some { w with interest := (eventAddRead w.interest fd data r).2 }
    else none
  | .addWrite fd data r =>
    if CtlFits w.interest .add fd r then
      some { w with interest := (eventAddWrite w.interest fd data r).2 }
    else none
  | .del fd r =>
    if CtlFits w.interest .del fd r then
      some { w with interest := (eventDel w.interest fd r).2 }
    else none
  | .wait timeout answers =>
    if ∀ a ∈ answers, WaitFits w.interest nevent a then
      match eventPoll timeout answers with
      | none => none
      | some (.inl fds) =>
        some { w with event := eventStore w fds, frames := ⟨0, fds.length⟩ :: w.frames }
      | some (.inr ret) => some { w with rets := w.rets ++ [ret] }
    else none
  | .next =>
    match w.frames with
    | [] => none
    | f :: frames =>
      if f.i < f.nreturned then
        let ev := w.event f.i
        some { w with
          frames := { f with i := f.i + 1 } :: frames
          calls := if cb then w.calls ++ [(ev.ptr, eventFlags ev.events)] else w.calls }
      else none
  | .leave =>
    match w.frames with
    | [] => none
    | f :: frames =>
      if f.i < f.nreturned then none
      else some { w with frames := frames, rets := w.rets ++ [(f.nreturned : Int)] }
  | .closed fd => some { w with interest := Function.update w.interest fd none }

/-- A base that watches nothing yet. -/
def eventWorld (event : Nat → EpollEvent) : EventWorld := ⟨fun _ => none, event, [], [], []⟩

end Wait

section Base

/-- `struct event_base`, with the address of its block. -/
structure EventBase where
  addr : Nat
  ep : Int32
  event : Nat
  nevent : Int32
  cb : Nat
deriving DecidableEq

/-- Whose a descriptor is. -/
inductive EventOwner where
  | base
  | other
deriving DecidableEq

/-- A call that gives something back. -/
inductive EventCall where
  | close (fd : Int32)
  | free (p : Nat)
deriving DecidableEq

/-- The descriptors of the process, its blocks that have been allocated here, and
    what has been given back that was not an event base's. -/
structure EventHome where
  table : Table EventOwner
  blocks : Nat → Bool
  strays : List EventCall

/-- `close`, which is stray unless the descriptor is that of a base. -/
def homeClose (k : EventHome) (fd : Int32) : EventHome :=
  { k with
    table := closed k.table fd
    strays := if k.table fd = some .base then k.strays else k.strays ++ [.close fd] }

/-- `free`, which is stray unless the block is that of a base. -/
def homeFree (k : EventHome) (p : Nat) : EventHome :=
  { k with
    blocks := Function.update k.blocks p false
    strays := if k.blocks p then k.strays else k.strays ++ [.free p] }

/-- `malloc` has answered. -/
def homeAlloc (k : EventHome) (p : Option Nat) : EventHome :=
  match p with
  | none => k
  | some p => { k with blocks := Function.update k.blocks p true }

/-- `event_base_create`, with what `epoll_create1` and the two allocations
    answer if they are called. -/
def eventBaseCreate (k : EventHome) (nevent : Int32) (cb : Nat) (ep : Int32)
    (event evb : Option Nat) : Option EventBase × EventHome :=
  let k := { k with table := opened k.table ep .base }
  if ep < 0 then (none, k)
  else
    let k := homeAlloc k event
    match event with
    | none => (none, homeClose k ep)
    | some event =>
      let k := homeAlloc k evb
      match evb with
      | none => (none, homeClose (homeFree k event) ep)
      | some evb => (some ⟨evb, ep, event, nevent, cb⟩, k)

/-- `event_base_destroy` of the base a pointer points to: the pointer, and what
    is left. -/
def eventBaseDestroy (k : EventHome) (evb : Option EventBase) : Option EventBase × EventHome :=
  match evb with
  | none => (none, k)
  | some e =>
    let k := homeFree k e.event
    let k := homeClose k e.ep
    (none, homeFree k e.addr)

/-- A program with pointers to event bases. -/
structure EventBases where
  home : EventHome
  evb : Nat → Option EventBase

/-- What a program with several bases does. -/
inductive BaseAct where
  /-- A null pointer is assigned what `event_base_create` returns. -/
  | create (i : Nat) (nevent : Int32) (cb : Nat) (ep : Int32) (event evb : Option Nat)
  | destroy (i : Nat)
  | otherOpen (fd : Int32)
  | otherClose (fd : Int32)
deriving DecidableEq

/-- One step, unless the system cannot answer so. The rest of the program closes
    what is its own. -/
def baseAct (w : EventBases) : BaseAct → Option EventBases
  | .create i nevent cb ep event evb =>
    if w.evb i = none ∧ Answer w.home.table ep ∧ AllocFits w.home.blocks event
        ∧ AllocFits (homeAlloc w.home event).blocks evb then
      let r := eventBaseCreate w.home nevent cb ep event evb
      some ⟨r.2, Function.update w.evb i r.1⟩
    else none
  | .destroy i =>
    let r := eventBaseDestroy w.home (w.evb i)
    some ⟨r.2, Function.update w.evb i r.1⟩
  | .otherOpen fd =>
    if 0 ≤ fd ∧ w.home.table fd = none then
      some { w with home := { w.home with table := opened w.home.table fd .other } }
    else none
  | .otherClose fd =>
    if w.home.table fd = some .other then
      some { w with home := { w.home with table := closed w.home.table fd } }
    else none

/-- A program without event bases. -/
def eventBases (table : Table EventOwner) : EventBases :=
  ⟨⟨table, fun _ => false, []⟩, fun _ => none⟩

end Base

end Aircmn
