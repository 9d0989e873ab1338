import Aircmn.Core.Base
import Aircmn.Lib.Bytes
import Aircmn.Lib.Resources

/-!
# Connections

`cmn_sock.c`: the functions that move bytes over a connection, and those that
set one up and close it. What the kernel does is given with a call, as what
each system call returns and the `errno` it leaves. A connection has two
fields besides these which none of the functions uses, and what is logged is
left out.

Both functions that move bytes are one loop around one system call
(`sockRetry`). Its answers are a list, of which the call consumes as many as it
needs; a list of interruptions only leaves the call waiting, which is `none`.
The bytes the kernel has taken are in `sent`, and `taken` counts those it has
given out of a `source` that the other end feeds.

For the set-up functions it matters whose a descriptor is. A close of a number
that the connection does not own is noted in `strays`; a negative number is
nobody's, and the kernel only says so.

## Main definitions

* `SockConn`, `sockConnCreate`: `struct sock_conn`.
* `IoAnswer`, `IoAnswer.Fits`: What `read` or `write` does.
* `SockIo`, `sockRetry`, `sockRecv`, `sockSend`: Moving bytes.
* `SockRun`, `SockCall`, `sockCall`: A program that moves bytes.
* `SockOwner`, `SockFds`, `fdObtain`, `fdClose`: The descriptors.
* `sockSetNonblocking`, `sockConnect`, `sockListen`, `sockClose`,
  `sockAccept`: Setting up and closing.
* `SockWorld`, `SockAct`, `sockSetUp`, `sockAct`: A connection in a program.
* `sockRejectAll`, `sockConnDestroy`: `sock_reject_all`, `sock_conn_destroy`.
* `PoolConn`, `SockPool`, `PoolAct`, `poolAct`: A program with many connections.
-/

namespace Aircmn

open Bytes Descriptors

/-- `EINTR`. -/
def eintr : Int32 := 4

/-- `EAGAIN`, and `EWOULDBLOCK`. -/
def eagain : Int32 := 11

/-- `EINPROGRESS`. -/
def einprogress : Int32 := 115

/-- `struct sock_conn`. -/
structure SockConn where
  sd : Int32
  err : Int32
  recvNbyte : UInt64
  sendNbyte : UInt64

/-- `sock_conn_create`, which zeroes. -/
def sockConnCreate : SockConn := ⟨0, 0, 0, 0⟩

/-- What a `read` or `write` does. -/
inductive IoAnswer where
  /-- It moves `n` bytes. -/
  | moved (n : Nat)
  /-- It returns zero. -/
  | zero
  | failed (errno : Int32)
deriving DecidableEq

/-- The answers to a request for `nbyte` bytes. -/
def IoAnswer.Fits (nbyte : Nat) : IoAnswer → Prop
  | .moved n => 0 < n ∧ n ≤ min nbyte (2 ^ 31 - 1)
  | .zero => True
  | .failed _ => True

instance (nbyte : Nat) : (a : IoAnswer) → Decidable (a.Fits nbyte)
  | .moved n => inferInstanceAs (Decidable (0 < n ∧ n ≤ min nbyte (2 ^ 31 - 1)))
  | .zero => inferInstanceAs (Decidable True)
  | .failed _ => inferInstanceAs (Decidable True)

/-- The connection, the memory of the program, and the bytes on their way. -/
structure SockIo where
  conn : SockConn
  mem : Mem
  sent : List UInt8
  taken : Nat

/-- The loop of `sock_recv` and `sock_send`, which `moved` ends when bytes have
    been moved. The number of bytes is returned as an `int`. -/
def sockRetry (s : SockIo) (moved : Nat → SockIo) : List IoAnswer → Option (Int × SockIo)
  | [] => none
  | .moved n :: _ => some ((Int32.ofNat n).toInt, moved n)
  | .zero :: _ => some (cmnOk, s)
  | .failed errno :: answers =>
    if errno = eintr then sockRetry s moved answers
    else if errno = eagain then some (cmnEagain, s)
    else some (cmnError, { s with conn := { s.conn with err := errno } })

/-- `sock_recv`: what the peer has sent is `source`, from the byte after those
    taken so far on. -/
def sockRecv (source : Nat → UInt8) (s : SockIo) (buf : Nat) (answers : List IoAnswer) :
    Option (Int × SockIo) :=
  sockRetry s (fun n =>
    { s with
      conn := { s.conn with recvNbyte := s.conn.recvNbyte + UInt64.ofNat n }
      mem := blit s.mem buf n (fun i => source (s.taken + i))
      taken := s.taken + n }) answers

/-- `sock_send`. -/
def sockSend (s : SockIo) (buf : Nat) (answers : List IoAnswer) : Option (Int × SockIo) :=
  sockRetry s (fun n =>
    { s with
      conn := { s.conn with sendNbyte := s.conn.sendNbyte + UInt64.ofNat n }
      sent := s.sent ++ slice s.mem buf n }) answers

/-- A program that moves bytes, with what its calls have returned. -/
structure SockRun where
  io : SockIo
  recvRets : List Int
  sendRets : List Int

/-- A call, or whatever the program does to its memory in between. -/
inductive SockCall where
  | recv (buf nbyte : Nat) (answers : List IoAnswer)
  | send (buf nbyte : Nat) (answers : List IoAnswer)
  | program (mem : Mem)

/-- One step. Both functions assert that there is something to do, and the
    kernel moves no more than that. -/
def sockCall (source : Nat → UInt8) (r : SockRun) : SockCall → Option SockRun
  | .recv buf nbyte answers =>
    if 0 < nbyte ∧ ∀ a ∈ answers, a.Fits nbyte then
      (sockRecv source r.io buf answers).map
        (fun p => { r with io := p.2, recvRets := r.recvRets ++ [p.1] })
    else none
  | .send buf nbyte answers =>
    if 0 < nbyte ∧ ∀ a ∈ answers, a.Fits nbyte then
      (sockSend r.io buf answers).map
        (fun p => { r with io := p.2, sendRets := r.sendRets ++ [p.1] })
    else none
  | .program mem => some { r with io := { r.io with mem := mem } }

/-- A new connection, and nothing moved. -/
def sockRun (mem : Mem) : SockRun := ⟨⟨sockConnCreate, mem, [], 0⟩, [], []⟩

/-- Whose a descriptor is. -/
inductive SockOwner where
  | conn
  | other
deriving DecidableEq

/-- The descriptors of the process, and the numbers that have been closed
    while the connection did not own them. -/
structure SockFds where
  table : Table SockOwner
  strays : List Int32

/-- A system call made for the connection has answered with `ret`. -/
def fdObtain (k : SockFds) (ret : Int32) : SockFds :=
  { k with table := opened k.table ret .conn }

/-- `close`, which is stray unless the descriptor is a connection's; a negative
    number names none. -/
def fdClose (k : SockFds) (fd : Int32) : SockFds :=
  { table := closed k.table fd
    strays := if fd < 0 ∨ k.table fd = some .conn then k.strays else k.strays ++ [fd] }

/-- What a system call returns, and the `errno` it leaves. -/
structure SysRet where
  ret : Int32
  errno : Int32
deriving DecidableEq

/-- `sock_set_nonblocking`, which is two calls of `fcntl`. -/
def sockSetNonblocking (getfl setfl : SysRet) : SysRet := if getfl.ret < 0 then getfl else setfl

/-- `sock_set_tcpnodelay`, with its body commented out. -/
def sockSetTcpnodelay : Status := cmnOk

/-- The system calls of `sock_connect`. -/
structure ConnectCalls where
  socket : SysRet
  connect : SysRet
  getfl : SysRet
  setfl : SysRet
deriving DecidableEq

/-- The system calls of `sock_listen`. -/
structure ListenCalls where
  socket : SysRet
  reuseaddr : SysRet
  bind : SysRet
  listen : SysRet
  getfl : SysRet
  setfl : SysRet
deriving DecidableEq

/-- `sock_close`, which leaves `sd` as it is. -/
def sockClose (k : SockFds) (c : SockConn) : SockFds := fdClose k c.sd

/-- What follows `error:` in `sock_connect`. -/
def sockConnectError (k : SockFds) (c : SockConn) (errno : Int32) : Bool × SockConn × SockFds :=
  let c := { c with err := errno }
  (false, c, if 0 < c.sd then fdClose k c.sd else k)

/-- `sock_connect`, by the answers of its system calls. -/
def sockConnect (k : SockFds) (c : SockConn) (o : ConnectCalls) : Bool × SockConn × SockFds :=
  let k := fdObtain k o.socket.ret
  let c := { c with sd := o.socket.ret }
  if c.sd < 0 then sockConnectError k c o.socket.errno
  else if sockSetTcpnodelay < 0 then sockConnectError k c o.socket.errno
  else if o.connect.ret < 0 ∧ o.connect.errno ≠ einprogress then
    sockConnectError k c o.connect.errno
  else
    let ret := sockSetNonblocking o.getfl o.setfl
    if ret.ret < 0 then sockConnectError k c ret.errno
    else (true, c, k)

/-- What follows `error:` in `sock_listen`. -/
def sockListenError (k : SockFds) (c : SockConn) : Bool × SockConn × SockFds :=
  (false, c, if 0 < c.sd then sockClose k c else k)

/-- `sock_listen`, by the answers of its system calls. -/
def sockListen (k : SockFds) (c : SockConn) (o : ListenCalls) : Bool × SockConn × SockFds :=
  let k := fdObtain k o.socket.ret
  let c := { c with sd := o.socket.ret }
  if c.sd < 0 then sockListenError k c
  else if o.reuseaddr.ret < 0 then sockListenError k c
  else if o.bind.ret < 0 then sockListenError k c
  else if o.listen.ret < 0 then sockListenError k c
  else if (sockSetNonblocking o.getfl o.setfl).ret ≠ 0 then sockListenError k c
  else (true, c, k)

/-- `_sock_accept`, with what `accept` answers each time. -/
def sockAcceptLoop : List SysRet → Option Int32
  | [] => none
  | r :: rs =>
    if r.ret < 0 then
      if r.errno = eagain then some (-1)
      else if r.errno = eintr then sockAcceptLoop rs
      else some (-1)
    else some r.ret

/-- `sock_accept` into `c`, on a listening connection. What making the
    descriptor non-blocking returns is ignored. -/
def sockAccept (k : SockFds) (c : SockConn) (rs : List SysRet) :
    Option (Bool × SockConn × SockFds) :=
  (sockAcceptLoop rs).map (fun sd =>
    let k := fdObtain k sd
    if sd < 0 then (false, c, k) else (true, { c with sd := sd }, k))

/-- A connection in a program. A descriptor that a set-up has obtained and
    that is still the connection's when the set-up returns false is in
    `kept`. -/
structure SockWorld where
  conn : SockConn
  fds : SockFds
  kept : List Int32

/-- A call on the connection, with what the kernel does, or something the rest
    of the program does. -/
inductive SockAct where
  | connect (o : ConnectCalls)
  | listen (o : ListenCalls)
  | accept (rs : List SysRet)
  | close
  | otherOpen (fd : Int32)
  | otherClose (fd : Int32)
deriving DecidableEq

/-- What a set-up for which `socket` has answered with `fd` leaves. -/
def sockSetUp (kept : List Int32) (fd : Int32) (r : Bool × SockConn × SockFds) : SockWorld :=
  { conn := r.2.1
    fds := r.2.2
    kept := if r.1 = false ∧ 0 ≤ fd ∧ r.2.2.table fd = some .conn then kept ++ [fd] else kept }

/-- One step, unless the kernel cannot answer so. The rest of the program
    closes what is its own. -/
def sockAct (w : SockWorld) : SockAct → Option SockWorld
  | .connect o =>
    if Answer w.fds.table o.socket.ret then
      some (sockSetUp w.kept o.socket.ret (sockConnect w.fds w.conn o))
    else none
  | .listen o =>
    if Answer w.fds.table o.socket.ret then
      some (sockSetUp w.kept o.socket.ret (sockListen w.fds w.conn o))
    else none
  | .accept rs =>
    if ∀ r ∈ rs, Answer w.fds.table r.ret then
      (sockAccept w.fds w.conn rs).map (fun r => { w with conn := r.2.1, fds := r.2.2 })
    else none
  | .close => some { w with fds := sockClose w.fds w.conn }
  | .otherOpen fd =>
    if 0 ≤ fd ∧ w.fds.table fd = none then
      some { w with fds := { w.fds with table := opened w.fds.table fd .other } }
    else none
  | .otherClose fd =>
    if w.fds.table fd = some .other then
      some { w with fds := { w.fds with table := closed w.fds.table fd } }
    else none

/-- A new connection. -/
def sockWorld (table : Table SockOwner) : SockWorld := ⟨sockConnCreate, ⟨table, []⟩, []⟩

section Pool

/-- `sock_reject_all`, with what `accept` answers each time. What `close` returns
    is only logged. -/
def sockRejectAll (k : SockFds) : List SysRet → Option SockFds
  | [] => none
  | r :: rs =>
    if r.ret < 0 then
      if r.errno = eagain then some k
      else if r.errno = eintr then sockRejectAll k rs
      else some k
    else sockRejectAll (fdClose (fdObtain k r.ret) r.ret) rs

/-- A connection with the address of its block. `isOpen` is no field of the
    source: a set-up has succeeded and `sock_close` has not been called since. -/
structure PoolConn where
  addr : Nat
  conn : SockConn
  isOpen : Bool

/-- A program with pointers to connections: its descriptors, its blocks that have
    been allocated here, the addresses that have been freed without being
    allocated, and the pointers. -/
structure SockPool where
  fds : SockFds
  blocks : Nat → Bool
  frees : List Nat
  conns : Nat → Option PoolConn

/-- `sock_conn_destroy` of the connection that a pointer points to. The
    descriptor stays as it is. -/
def sockConnDestroy (w : SockPool) (i : Nat) : SockPool :=
  match w.conns i with
  | none => w
  | some c =>
    { w with
      blocks := Function.update w.blocks c.addr false
      frees := if w.blocks c.addr then w.frees else w.frees ++ [c.addr]
      conns := Function.update w.conns i none }

/-- What a program with several connections does. -/
inductive PoolAct where
  /-- A null pointer is assigned what `sock_conn_create` returns. -/
  | create (i : Nat) (p : Option Nat)
  | connect (i : Nat) (o : ConnectCalls)
  | listen (i : Nat) (o : ListenCalls)
  /-- `sock_accept` on the connection `l`, into the connection `i`. -/
  | accept (l i : Nat) (rs : List SysRet)
  | rejectAll (l : Nat) (rs : List SysRet)
  | close (i : Nat)
  | destroy (i : Nat)
  | otherOpen (fd : Int32)
  | otherClose (fd : Int32)
deriving DecidableEq

/-- A set-up or an accept for the connection `i` has returned. -/
def poolSetUp (w : SockPool) (i : Nat) (c : PoolConn) (r : Bool × SockConn × SockFds) : SockPool :=
  { w with
    fds := r.2.2
    conns := Function.update w.conns i (some ⟨c.addr, r.2.1, c.isOpen || r.1⟩) }

/-- One step, unless the system cannot answer so or a null pointer is followed.
    The rest of the program closes what is its own. -/
def poolAct (w : SockPool) : PoolAct → Option SockPool
  | .create i p =>
    match w.conns i with
    | some _ => none
    | none =>
      if AllocFits w.blocks p then
        match p with
        | none => some w
        | some addr =>
          some { w with
            blocks := Function.update w.blocks addr true
            conns := Function.update w.conns i (some ⟨addr, sockConnCreate, false⟩) }
      else none
  | .connect i o =>
    match w.conns i with
    | none => none
    | some c =>
      if Answer w.fds.table o.socket.ret then some (poolSetUp w i c (sockConnect w.fds c.conn o))
      else none
  | .listen i o =>
    match w.conns i with
    | none => none
    | some c =>
      if Answer w.fds.table o.socket.ret then some (poolSetUp w i c (sockListen w.fds c.conn o))
      else none
  | .accept l i rs =>
    match w.conns l, w.conns i with
    | some _, some c =>
      if ∀ r ∈ rs, Answer w.fds.table r.ret then
        (sockAccept w.fds c.conn rs).map (poolSetUp w i c)
      else none
    | _, _ => none
  | .rejectAll l rs =>
    match w.conns l with
    | none => none
    | some _ =>
      if ∀ r ∈ rs, Answer w.fds.table r.ret then
        (sockRejectAll w.fds rs).map (fun k => { w with fds := k })
      else none
  | .close i =>
    match w.conns i with
    -- `sock_close` does nothing with a null pointer.
    | none => some w
    | some c =>
      some { w with
        fds := sockClose w.fds c.conn
        conns := Function.update w.conns i (some { c with isOpen := false }) }
  | .destroy i => some (sockConnDestroy w i)
  | .otherOpen fd =>
    if 0 ≤ fd ∧ w.fds.table fd = none then
      some { w with fds := { w.fds with table := opened w.fds.table fd .other } }
    else none
  | .otherClose fd =>
    if w.fds.table fd = some .other then
      some { w with fds := { w.fds with table := closed w.fds.table fd } }
    else none

/-- A program without connections. -/
def sockPool (table : Table SockOwner) : SockPool :=
  ⟨⟨table, []⟩, fun _ => false, [], fun _ => none⟩

end Pool

end Aircmn
