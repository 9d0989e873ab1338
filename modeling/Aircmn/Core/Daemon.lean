import Aircmn.Core.Conf
import Aircmn.Core.Journal

/-!
# Becoming a Daemon

`cmn_daemon.c`, on a process with its descriptors and its logger. What the system
calls answer is given with a call. After a `fork` that succeeds the caller exits
and the call goes on in the child, so there is one process all the time, and a
call that fails late returns in another process than it was made in.

A `dup2` from an open descriptor succeeds; what had its number before is closed
without a word, whoever it belonged to. Which descriptors refer to `/dev/null`
is in `null`, as their owner is the rest of the program.

The message about a failed `chdir` has two conversions to strings and gets
`errno` for the second. Where the message is formatted, nothing can be said about
what the program does next, and the call ends with a fault.

## Main definitions

* `stdFilenos`: The standard descriptors.
* `DaemonProc`, `DaemonCalls`, `DaemonFault`: A process, what the kernel answers,
  and the number taken for a string.
* `nullOpen`, `nullDup2`, `nullClose`, `daemonDetach`: The standard descriptors
  are replaced.
* `daemonInit`: `daemon_init`.
* `DaemonAct`, `daemonAct`, `daemonProc`: A program that logs and becomes a daemon.
-/

namespace Aircmn

open Descriptors

/-- `STDIN_FILENO`, `STDOUT_FILENO` and `STDERR_FILENO`. -/
def stdFilenos : List Int32 := [0, 1, 2]

/-- `LOG_ERR`. -/
def logErr : Int32 := 2

/-- What `daemon_init` changes of a process, with the log and the descriptors that
    refer to `/dev/null`. -/
structure DaemonProc where
  pid : Int32
  /-- The session. -/
  sid : Int32
  cwd : List UInt8
  umask : UInt32
  log : LogWorld
  null : Int32 → Bool
  /-- The processes that were there before. -/
  exited : List Int32

/-- What the system calls answer: the pid of the child, what `getcwd` has left in
    the buffer, and `n` for the write of a message. -/
structure DaemonCalls where
  fork : Int32
  setsid : Int32
  getcwd : List UInt8
  chdir : Int32
  null : Int32
  n : Int64
deriving DecidableEq

/-- What stops a run. -/
inductive DaemonFault where
  /-- `errno` for a `%s`. -/
  | errnoString
deriving DecidableEq

/-- `log_error` writes something. -/
def daemonLoud (p : DaemonProc) : Bool :=
  logLoggable p.log.logger logErr && !decide (p.log.logger.fd < 0)

/-- `log_error`. -/
def daemonError (p : DaemonProc) (n : Int64) : DaemonProc :=
  if logLoggable p.log.logger logErr then
    let r := log p.log.kernel p.log.logger n
    { p with log := ⟨r.1, r.2⟩ }
  else p

/-- The descriptors, and those for `/dev/null` among them. -/
def DaemonProc.setFds (p : DaemonProc) (table : Table FdOwner) (null : Int32 → Bool) :
    DaemonProc :=
  { p with log := { p.log with kernel := { p.log.kernel with table := table } }, null := null }

/-- `open` of `/dev/null` has returned `fd`. -/
def nullOpen (p : DaemonProc) (fd : Int32) : DaemonProc :=
  p.setFds (opened p.log.kernel.table fd .other) (Function.update p.null fd true)

/-- `dup2(fd, newfd)`. -/
def nullDup2 (p : DaemonProc) (fd newfd : Int32) : DaemonProc :=
  p.setFds (Function.update p.log.kernel.table newfd (p.log.kernel.table fd))
    (Function.update p.null newfd (p.null fd))

/-- `close` of one of its descriptors. -/
def nullClose (p : DaemonProc) (fd : Int32) : DaemonProc :=
  p.setFds (closed p.log.kernel.table fd) (Function.update p.null fd false)

/-- `/dev/null` has been opened as `fd`. -/
def daemonDetach (p : DaemonProc) (fd : Int32) : DaemonProc :=
  let p := stdFilenos.foldl (fun p newfd => nullDup2 p fd newfd) (nullOpen p fd)
  if stderrFileno < fd then nullClose p fd else p

/-- The path in `sbuf`. -/
def daemonPath (dir : Option (List UInt8)) (getcwd : List UInt8) : List UInt8 :=
  match dir with
  | some dir => dir.take (maxPathLen - 1)
  | none => getcwd

/-- The directory that a path leads to from another. -/
def pathFrom (cwd path : List UInt8) : List UInt8 :=
  if path.head? = some 47 then path else cwd ++ [47] ++ path

/-- `daemon_init`. -/
def daemonInit (p : DaemonProc) (isOpen : Bool) (dir : Option (List UInt8)) (o : DaemonCalls) :
    Except DaemonFault (Status × DaemonProc) :=
  if o.fork = -1 then .ok (cmnError, daemonError p o.n)
  else
    -- The caller exits.
    let p := { p with pid := o.fork, exited := p.exited ++ [p.pid] }
    if o.setsid = -1 then .ok (cmnError, daemonError p o.n)
    else
      let p := { p with sid := p.pid }
      let sbuf := daemonPath dir o.getcwd
      if o.chdir ≠ 0 then
        if daemonLoud p then .error .errnoString else .ok (cmnError, p)
      else
        let p := { p with cwd := pathFrom p.cwd sbuf, umask := 0 }
        .ok (cmnOk, if isOpen ∧ o.null ≠ -1 then daemonDetach p o.null else p)

/-- A call of the logger or something the rest of the program does, or a
    `daemon_init`. -/
inductive DaemonAct where
  | log (act : LogAct)
  | init (isOpen : Bool) (dir : Option (List UInt8)) (o : DaemonCalls)
deriving DecidableEq

/-- The rest of the program leaves the standard descriptors open. -/
def LeavesStandard : LogAct → Prop
  | .otherClose fd => fd ∉ stdFilenos
  | _ => True

instance leavesStandardDecidable : (act : LogAct) → Decidable (LeavesStandard act)
  | .otherClose fd => inferInstanceAs (Decidable (fd ∉ stdFilenos))
  | .openLog _ _ _ _ => inferInstanceAs (Decidable True)
  | .reopen _ _ => inferInstanceAs (Decidable True)
  | .close => inferInstanceAs (Decidable True)
  | .log _ => inferInstanceAs (Decidable True)
  | .otherOpen _ => inferInstanceAs (Decidable True)

/-- One step, unless the kernel cannot answer so or the step has a fault. -/
def daemonAct (p : DaemonProc) : DaemonAct → Option DaemonProc
  | .log act =>
    if LeavesStandard act then
      (logAct p.log act).map fun log =>
        -- What has been closed does not refer to anything.
        { p with log := log, null := fun fd => p.null fd && log.kernel.table fd == some .other }
    else none
  | .init isOpen dir o =>
    if (o.fork = -1 ∨ 0 < o.fork) ∧ (o.null = -1 ∨ (0 ≤ o.null ∧ p.log.kernel.table o.null = none))
    then
      match daemonInit p isOpen dir o with
      | .error _ => none
      | .ok r => some r.2
    else none

/-- Program start. -/
def daemonProc (table : Table FdOwner) (pid sid : Int32) (cwd : List UInt8) (umask : UInt32) :
    DaemonProc :=
  ⟨pid, sid, cwd, umask, logWorld table, fun _ => false, []⟩

end Aircmn
